import Mathlib.Data.List.DropRight
import Rins.Reactor.IoBuf

/-!
# ConfigFile — `config_file`

`load` reads a file line by line.  A header line makes a section the current one, an assignment is
stored in the map of the current section, to which the local pointer `m` points.

The maps are on the heap: `_map` has for each section a pointer, which here is a number, and `maps`
has the objects that were made with `new` so far.  No map is deleted before the object itself is.
`m` is null before the first header; its use is an access outside every block then.  Of the bytes,
10 ends a line, 91 and 93 are brackets, 61 is `=`, and 35 and 59 are `#` and `;`.

What the file says is stated on its lines one by one: `classify` tells headers from assignments,
`currentSection` is the last header so far, and `Assigns` is the assignment of one line.
-/

namespace Rins
namespace Reactor

/-- `std::string`: the bytes. -/
abbrev Str := List UInt8

namespace Config

/-! ## Trimming -/

/-- `isspace`, in the locale a program starts with: blank, `\t`, `\n`, `\v`, `\f` and `\r`. -/
def isspace (c : UInt8) : Bool :=
  c == 32 || (9 ≤ c && c ≤ 13)

/-- The loop of `trim_left`.  The iterator is given by what lies ahead of it. -/
def trimLeftLoop : Str → Nat → Nat
  | [], firstNotEmpty => firstNotEmpty
  | c :: beg, firstNotEmpty =>
      if !isspace c then firstNotEmpty else trimLeftLoop beg (firstNotEmpty + 1)

/-- `config_file::trim_left`. -/
def trimLeft (s : Str) : Str :=
  s.drop (trimLeftLoop s 0)

/-- The loop of `trim_right`.  The iterator is given by what lies before it, the last byte first. -/
def trimRightLoop : Str → Nat → Nat
  | [], lastNotEmpty => lastNotEmpty
  | c :: before, lastNotEmpty =>
      if !isspace c then lastNotEmpty else trimRightLoop before (lastNotEmpty - 1)

/-- `config_file::trim_right`. -/
def trimRight (s : Str) : Str :=
  s.take (trimRightLoop s.reverse s.length)

/-- `config_file::trim`. -/
def trim (s : Str) : Str :=
  trimLeft (trimRight s)

theorem trimLeftLoop_add (s : Str) (n : Nat) : trimLeftLoop s n = n + trimLeftLoop s 0 := by
  induction s generalizing n with
  | nil => simp [trimLeftLoop]
  | cons c s ih =>
      simp only [trimLeftLoop]
      split_ifs with hspace
      · rfl
      · rw [ih (n + 1), ih (0 + 1)]
        omega

theorem trimLeft_eq (s : Str) : trimLeft s = s.dropWhile isspace := by
  unfold trimLeft
  induction s with
  | nil => rfl
  | cons c s ih =>
      cases hspace : isspace c with
      | false => simp [trimLeftLoop, hspace]
      | true =>
          simp only [trimLeftLoop, hspace, Bool.not_true, Bool.false_eq_true, if_false,
            List.dropWhile_cons_of_pos]
          rw [trimLeftLoop_add, zero_add, Nat.add_comm, List.drop_succ_cons]
          exact ih

theorem trimRightLoop_le (s : Str) (n : Nat) : trimRightLoop s n ≤ n := by
  induction s generalizing n with
  | nil => exact le_refl n
  | cons c s ih =>
      simp only [trimRightLoop]
      split_ifs with hspace
      · exact le_refl n
      · exact le_trans (ih (n - 1)) (Nat.sub_le n 1)

theorem trimRight_eq (s : Str) : trimRight s = s.rdropWhile isspace := by
  unfold trimRight
  induction s using List.reverseRecOn with
  | nil => rfl
  | append_singleton s c ih =>
      rw [List.reverse_append, List.rdropWhile_concat]
      cases hspace : isspace c with
      | false =>
          simp only [List.reverse_singleton, List.singleton_append, trimRightLoop, hspace,
            Bool.not_false, if_true, Bool.false_eq_true, if_false]
          exact List.take_length
      | true =>
          simp only [List.reverse_singleton, List.singleton_append, trimRightLoop, hspace,
            Bool.not_true, Bool.false_eq_true, if_false, if_true, List.length_append,
            List.length_singleton, Nat.add_sub_cancel]
          rw [List.take_append_of_le_length (trimRightLoop_le s.reverse s.length)]
          exact ih

/-- `text` is `s` without the white space at its ends. -/
structure Trimmed (s text : Str) : Prop where
  ends : ∃ left right, s = left ++ text ++ right ∧ left.all isspace ∧ right.all isspace
  first : ∀ c ∈ text.head?, isspace c = false
  last : ∀ c ∈ text.getLast?, isspace c = false

/-- The text between the white space at the ends. -/
def strip (s : Str) : Str :=
  (s.rdropWhile isspace).dropWhile isspace

theorem trim_eq (s : Str) : trim s = strip s := by
  unfold trim strip
  rw [trimLeft_eq, trimRight_eq]

theorem trimmed_strip (s : Str) : Trimmed s (strip s) := by
  have hsplit : (s.rdropWhile isspace).takeWhile isspace ++ strip s = s.rdropWhile isspace :=
    List.takeWhile_append_dropWhile
  refine ⟨⟨(s.rdropWhile isspace).takeWhile isspace, s.rtakeWhile isspace, ?_,
    List.all_takeWhile, ?_⟩, ?_, ?_⟩
  · rw [hsplit, List.rdropWhile_append_rtakeWhile]
  · rw [List.rtakeWhile, List.all_reverse]
    exact List.all_takeWhile
  · intro c hc
    have hhead := List.head?_dropWhile_not isspace (s.rdropWhile isspace)
    rw [show (List.dropWhile isspace (s.rdropWhile isspace)).head? = some c from hc] at hhead
    exact hhead
  · intro c hc
    -- the last byte is that of the text with its front still there
    have hlast : c ∈ (s.rdropWhile isspace).getLast? := by
      rw [← hsplit, List.getLast?_append, Option.mem_def, Option.mem_def.1 hc, Option.some_or]
    rcases List.mem_getLast?_eq_getLast hlast with ⟨hne, rfl⟩
    simpa using List.rdropWhile_last_not isspace s hne

/-- `config_file::is_section`: the return value, and `section`. -/
def isSection (line : Str) : Bool × Str :=
  let sec := trim line
  if sec.isEmpty || sec.length ≤ 2 then
    (false, sec)
  else if sec.head? ≠ some 91 || sec.getLast? ≠ some 93 then
    (false, sec)
  else
    (true, trim ((sec.drop 1).take (sec.length - 2)))

end Config

/-! ## Loading -/

/-- A section's `std::map<string, string>`. -/
abbrev SectionMap := Str → Option Str

structure ConfigFile where
  /-- `_map` -/
  map : Str → Option Nat
  /-- the objects behind the pointers -/
  maps : List SectionMap

namespace ConfigFile

open Config

/-- `new config_file()`. -/
def new : ConfigFile :=
  { map := fun _ => none
    maps := [] }

/-- The map that a pointer points to. -/
def deref (cfg : ConfigFile) (m : Option Nat) : Except Fault (Nat × SectionMap) :=
  match m with
  | none => .error .outOfBounds
  | some p =>
      match cfg.maps[p]? with
      | none => .error .outOfBounds
      | some table => .ok (p, table)

/-- `config_file::get_string`. -/
def getString (cfg : ConfigFile) (sec key defaultValue : Str) : Except Fault Str :=
  match cfg.map sec with
  | none => .ok defaultValue
  | some p => do
      let (_, table) ← cfg.deref (some p)
      match table key with
      | some value => return value
      | none => return defaultValue

/-- One round of `load`: the object and `m` behind a line. -/
def loadLine (cfg : ConfigFile) (m : Option Nat) (line : Str) :
    Except Fault (ConfigFile × Option Nat) :=
  let (ok, sec) := isSection line
  if ok then
    match cfg.map sec with
    | none =>
        let m := cfg.maps.length
        .ok ({ map := Function.update cfg.map sec (some m), maps := cfg.maps ++ [fun _ => none] },
          some m)
    | some m => .ok (cfg, some m)
  else
    match line.idxOf? 61 with
    | none => .ok (cfg, m)
    | some equPos =>
        let key := trim (line.take equPos)
        let value := trim (line.drop (equPos + 1))
        if key.isEmpty then
          .ok (cfg, m)
        else if key.head? = some 35 || key.head? = some 59 then
          .ok (cfg, m)
        else do
          let (p, table) ← cfg.deref m
          -- a key that is there has its value replaced, one that is not is inserted
          let table := Function.update table key (some value)
          return ({ cfg with maps := cfg.maps.set p table }, m)

/-- `getline`: the line, and what is left of the file, or nothing when it has met the end. -/
def getline : Str → Str × Option Str
  | [] => ([], none)
  | c :: file =>
      if c = 10 then
        ([], some file)
      else
        let (line, left) := getline file
        (c :: line, left)

theorem getline_left {file line left : Str} (h : getline file = (line, some left)) :
    left.length < file.length := by
  induction file generalizing line with
  | nil => cases h
  | cons c file ih =>
      simp only [getline] at h
      split_ifs at h with hend
      · cases h
        simp
      · have hleft : getline file = ((getline file).1, some left) :=
          Prod.ext rfl (Prod.ext_iff.1 h).2
        simpa using Nat.lt_succ_of_lt (ih hleft)

/-- The loop of `load`, which ends behind the line at which `getline` meets the end of the file. -/
def loadLoop (file : Str) (cfg : ConfigFile) (m : Option Nat) : Except Fault ConfigFile := do
  match _ : getline file with
  | (line, none) =>
      let (cfg, _) ← cfg.loadLine m line
      return cfg
  | (line, some left) =>
      let (cfg, m) ← cfg.loadLine m line
      loadLoop left cfg m
termination_by file.length
decreasing_by exact getline_left ‹_›

/-- `config_file::load`.  `file` is what the file holds, if it can be opened. -/
def load (cfg : ConfigFile) (file : Option Str) : Except Fault (Bool × ConfigFile) :=
  match file with
  | none => .ok (false, cfg)
  | some file => do
      let cfg ← loadLoop file cfg none
      return (true, cfg)

/-- `config_file::set_path`, with the object `config` points to. -/
def setPath (config : Option ConfigFile) (file : Option Str) :
    Except Fault (Bool × ConfigFile) := do
  assert config.isNone
  new.load file

/-! ## What the lines of a file say -/

/-- A line, as it is meant. -/
inductive Line
  | header (sec : Str)
  | assign (key value : Str)
  | other
  deriving DecidableEq, Repr

/-- A header is in brackets and has something between them; any other line with a `=` and a key
before it assigns, unless the key is commented out. -/
def classify (line : Str) : Line :=
  if 2 < (strip line).length ∧ (strip line).head? = some 91 ∧ (strip line).getLast? = some 93 then
    .header (strip ((strip line).tail.dropLast))
  else
    let key := strip (line.takeWhile (· ≠ 61))
    if 61 ∈ line ∧ key ≠ [] ∧ key.head? ≠ some 35 ∧ key.head? ≠ some 59 then
      .assign key (strip ((line.dropWhile (· ≠ 61)).tail))
    else
      .other

/-- The section that a line makes the current one. -/
def Line.header? : Line → Option Str
  | .header sec => some sec
  | _ => none

def Line.assigns : Line → Bool
  | .assign _ _ => true
  | _ => false

/-- The section that is current behind these lines: that of the last header. -/
def currentSection (before : List Str) : Option Str :=
  (before.filterMap fun line => (classify line).header?).getLast?

/-- Line `i` assigns to the key while the section is the current one. -/
def Assigns (lines : List Str) (i : Nat) (sec key value : Str) : Prop :=
  (∃ line, lines[i]? = some line ∧ classify line = .assign key value) ∧
    currentSection (lines.take i) = some sec

/-- The lines of a file.  The last one ends at the end of the file. -/
def fileLines (file : Str) : List Str :=
  file.splitOn 10

theorem fileLines_getline (file : Str) :
    fileLines file = (getline file).1 :: ((getline file).2.map fileLines).getD [] := by
  unfold fileLines
  induction file with
  | nil => rfl
  | cons c file ih =>
      rw [List.splitOn_cons_eq_if_modifyHead]
      simp only [getline]
      by_cases hend : c = 10
      · simp [hend]
      · simp [hend, ih]

/-- The loop goes through the lines of the file one by one. -/
theorem loadLoop_eq (file : Str) (cfg : ConfigFile) (m : Option Nat) :
    loadLoop file cfg m = (do
      let (cfg, _) ← (fileLines file).foldlM (fun (cfg, m) line => loadLine cfg m line) (cfg, m)
      return cfg) := by
  fun_induction loadLoop file cfg m with
  | case1 file cfg m line hline =>
      rw [fileLines_getline, hline]
      simp
  | case2 file cfg m line left hline ih =>
      rw [fileLines_getline, hline]
      simp only [Option.map_some, Option.getD_some, List.foldlM_cons, bind_assoc]
      exact bind_congr fun next => ih next.1 next.2

/-! ## One line -/

theorem isSection_eq (line : Str) :
    isSection line =
      if 2 < (strip line).length ∧ (strip line).head? = some 91 ∧
          (strip line).getLast? = some 93 then
        (true, strip ((strip line).tail.dropLast))
      else
        (false, strip line) := by
  unfold isSection
  simp only [trim_eq]
  by_cases hlong : 2 < (strip line).length
  · have hne : (strip line).isEmpty = false := by
      cases hstrip : strip line with
      | nil => simp [hstrip] at hlong
      | cons c rest => rfl
    have hshort : ¬ (strip line).length ≤ 2 := by omega
    by_cases hends : (strip line).head? = some 91 ∧ (strip line).getLast? = some 93
    · simp [hlong, hshort, hends, hne, List.dropLast_eq_take, Nat.sub_sub]
    · have hnot : ¬ (strip line).head? = some 91 ∨ ¬ (strip line).getLast? = some 93 :=
        not_and_or.1 hends
      simp [hlong, hshort, hends, hnot, hne]
  · have hshort : (strip line).length ≤ 2 := by omega
    simp [hlong, hshort]

/-- `find` gives the place of the first `=`. -/
theorem idxOf?_equ {line : Str} {equPos : Nat} (h : line.idxOf? 61 = some equPos) :
    line.take equPos = line.takeWhile (· ≠ 61) ∧
      line.drop (equPos + 1) = (line.dropWhile (· ≠ 61)).tail := by
  induction line generalizing equPos with
  | nil => cases h
  | cons c line ih =>
      rw [List.idxOf?_cons] at h
      by_cases hc : c = 61
      · simp [hc] at h
        simp [hc, ← h]
      · simp [hc] at h
        rcases h with ⟨pos, hpos, rfl⟩
        rcases ih hpos with ⟨hbefore, hbehind⟩
        simp [hc, hbefore, hbehind]

/-- What a line does, by what it says. -/
theorem loadLine_eq (cfg : ConfigFile) (m : Option Nat) (line : Str) :
    loadLine cfg m line =
      match classify line with
      | .header sec =>
          match cfg.map sec with
          | none =>
              .ok ({ map := Function.update cfg.map sec (some cfg.maps.length),
                     maps := cfg.maps ++ [fun _ => none] }, some cfg.maps.length)
          | some m => .ok (cfg, some m)
      | .assign key value => do
          let (p, table) ← cfg.deref m
          return ({ cfg with maps := cfg.maps.set p (Function.update table key (some value)) }, m)
      | .other => .ok (cfg, m) := by
  unfold loadLine classify
  rw [isSection_eq]
  by_cases hheader : 2 < (strip line).length ∧ (strip line).head? = some 91 ∧
      (strip line).getLast? = some 93
  · simp only [if_pos hheader, if_true]
  · simp only [if_neg hheader, Bool.false_eq_true, if_false]
    by_cases hmem : 61 ∈ line
    · rcases Option.isSome_iff_exists.1 (List.isSome_idxOf?.2 hmem) with ⟨equPos, hpos⟩
      rcases idxOf?_equ hpos with ⟨hbefore, hbehind⟩
      simp only [hpos, hbefore, hbehind, trim_eq, hmem, true_and]
      generalize strip (line.takeWhile (· ≠ 61)) = key
      cases key with
      | nil => rfl
      | cons c key =>
          by_cases hsharp : c = 35
          · simp [hsharp]
          · by_cases hsemi : c = 59
            · simp [hsemi]
            · simp [hsharp, hsemi]
    · simp [List.idxOf?_eq_none_iff.2 hmem, hmem]

/-! ## One more line of the file -/

theorem currentSection_append_singleton (lines : List Str) (line : Str) :
    currentSection (lines ++ [line]) = (classify line).header?.or (currentSection lines) := by
  unfold currentSection
  cases hheader : (classify line).header? with
  | none => simp [hheader]
  | some sec => simp [hheader]

theorem assigns_append_singleton {lines : List Str} {line : Str} {i : Nat} {sec key value : Str} :
    Assigns (lines ++ [line]) i sec key value ↔
      Assigns lines i sec key value ∨
        i = lines.length ∧ classify line = .assign key value ∧ currentSection lines = some sec := by
  unfold Assigns
  rcases lt_trichotomy i lines.length with hlt | rfl | hgt
  · rw [List.getElem?_append_left hlt, List.take_append_of_le_length hlt.le]
    simp [hlt.ne]
  · simp
  · have hnone : (lines ++ [line])[i]? = none := by
      rw [List.getElem?_eq_none_iff, List.length_append, List.length_singleton]
      omega
    have hnone' : lines[i]? = none := List.getElem?_eq_none_iff.2 hgt.le
    simp [hnone, hnone', hgt.ne']

/-- The line that assigns to the key last, while the section is the current one, assigns the
value. -/
def LastAssigned (lines : List Str) (sec key value : Str) : Prop :=
  ∃ i, Assigns lines i sec key value ∧ ∀ j, i < j → ∀ later, ¬ Assigns lines j sec key later

theorem Assigns.lt_length {lines : List Str} {i : Nat} {sec key value : Str}
    (h : Assigns lines i sec key value) : i < lines.length := by
  rcases h with ⟨⟨line, hline, _⟩, _⟩
  exact (List.getElem?_eq_some_iff.1 hline).1

theorem lastAssigned_append_of_assign {lines : List Str} {line : Str} {sec key value new : Str}
    (hassign : classify line = .assign key new) (hsec : currentSection lines = some sec) :
    LastAssigned (lines ++ [line]) sec key value ↔ value = new := by
  have hlast : Assigns (lines ++ [line]) lines.length sec key new :=
    assigns_append_singleton.2 (.inr ⟨rfl, hassign, hsec⟩)
  constructor
  · rintro ⟨i, hi, hend⟩
    -- the new line is behind all others that assign
    have hle : lines.length ≤ i := by
      by_contra hlt
      exact hend lines.length (not_le.1 hlt) new hlast
    rcases assigns_append_singleton.1 hi with hold | ⟨_, hnew, _⟩
    · exact absurd hold.lt_length (not_lt.2 hle)
    · rw [hassign] at hnew
      cases hnew
      rfl
  · rintro rfl
    refine ⟨lines.length, hlast, fun j hj later hlater => ?_⟩
    have hlt := hlater.lt_length
    rw [List.length_append, List.length_singleton] at hlt
    omega

theorem lastAssigned_append_of_not {lines : List Str} {line : Str} {sec key value : Str}
    (hnot : ∀ new, classify line = .assign key new → currentSection lines ≠ some sec) :
    LastAssigned (lines ++ [line]) sec key value ↔ LastAssigned lines sec key value := by
  have hsame : ∀ i v, Assigns (lines ++ [line]) i sec key v ↔ Assigns lines i sec key v := by
    intro i v
    rw [assigns_append_singleton, or_iff_left]
    rintro ⟨_, hassign, hsec⟩
    exact hnot v hassign hsec
  simp only [LastAssigned, hsame]

/-- No line assigns before the first header. -/
def Sectioned (lines : List Str) : Prop :=
  ∀ i, ∀ h : i < lines.length, ∀ key value, classify lines[i] = .assign key value →
    currentSection (lines.take i) ≠ none

instance (lines : List Str) : Decidable (Sectioned lines) :=
  decidable_of_iff
    (∀ i, ∀ h : i < lines.length, (classify lines[i]).assigns = true →
      currentSection (lines.take i) ≠ none) <| by
    constructor
    · intro h i hi key value hassign
      exact h i hi (by rw [hassign]; rfl)
    · intro h i hi hassign
      cases hline : classify lines[i] with
      | assign key value => exact h i hi key value hline
      | header sec => simp [hline, Line.assigns] at hassign
      | other => simp [hline, Line.assigns] at hassign

theorem sectioned_append_singleton {lines : List Str} {line : Str} :
    Sectioned (lines ++ [line]) ↔
      Sectioned lines ∧ ∀ key value, classify line = .assign key value →
        currentSection lines ≠ none := by
  unfold Sectioned
  constructor
  · intro h
    refine ⟨fun i hi key value hassign => ?_, fun key value hassign => ?_⟩
    · have hlt : i < (lines ++ [line]).length := by
        rw [List.length_append]
        omega
      have hcur := h i hlt key value (by rwa [List.getElem_append_left hi])
      rwa [List.take_append_of_le_length hi.le] at hcur
    · have hcur := h lines.length (by simp) key value (by simpa using hassign)
      simpa using hcur
  · rintro ⟨hlines, hline⟩ i hi key value hassign
    rw [List.length_append, List.length_singleton] at hi
    rcases Nat.lt_succ_iff_lt_or_eq.1 hi with hlt | rfl
    · rw [List.getElem_append_left hlt] at hassign
      rw [List.take_append_of_le_length hlt.le]
      exact hlines i hlt key value hassign
    · rw [List.take_left]
      exact hline key value (by simpa using hassign)

/-! ## The object behind the lines so far -/

/-- What is stored for a key. -/
def lookup (cfg : ConfigFile) (sec key : Str) : Option Str :=
  (cfg.map sec).bind fun p => cfg.maps[p]?.bind fun table => table key

/-- The pointers are good and are of one section each, `m` is that of the current section, and the
maps have what was assigned last. -/
structure Loaded (lines : List Str) (cfg : ConfigFile) (m : Option Nat) : Prop where
  bound : ∀ sec p, cfg.map sec = some p → p < cfg.maps.length
  inj : ∀ sec other p, cfg.map sec = some p → cfg.map other = some p → sec = other
  current : m = (currentSection lines).bind cfg.map
  known : ∀ sec, currentSection lines = some sec → cfg.map sec ≠ none
  stored : ∀ sec key value, cfg.lookup sec key = some value ↔ LastAssigned lines sec key value

theorem loaded_new : Loaded [] new none where
  bound := by
    intro sec p h
    cases h
  inj := by
    intro sec other p h
    cases h
  current := rfl
  known := by
    intro sec h
    cases h
  stored := by
    intro sec key value
    constructor
    · intro h
      cases h
    · rintro ⟨i, h, _⟩
      exact absurd h.lt_length (Nat.not_lt_zero i)

/-- A look-up goes through a good pointer. -/
theorem Loaded.getString_eq {lines : List Str} {cfg : ConfigFile} {m : Option Nat}
    (h : Loaded lines cfg m) (sec key defaultValue : Str) :
    cfg.getString sec key defaultValue = .ok ((cfg.lookup sec key).getD defaultValue) := by
  unfold getString lookup
  cases hp : cfg.map sec with
  | none => rfl
  | some p =>
      have hlt := h.bound sec p hp
      simp only [deref, List.getElem?_eq_getElem hlt, ok_bind, Option.bind_some]
      cases cfg.maps[p] key with
      | none => rfl
      | some value => rfl

section Step

variable {lines : List Str} {cfg : ConfigFile} {m : Option Nat} {line : Str}

theorem Loaded.other (h : Loaded lines cfg m) (hline : classify line = .other) :
    Loaded (lines ++ [line]) cfg m where
  bound := h.bound
  inj := h.inj
  current := by
    rw [currentSection_append_singleton, hline]
    exact h.current
  known := by
    intro sec hsec
    rw [currentSection_append_singleton, hline] at hsec
    exact h.known sec hsec
  stored := by
    intro sec key value
    rw [lastAssigned_append_of_not (fun new hnew => by rw [hline] at hnew; cases hnew)]
    exact h.stored sec key value

theorem Loaded.resume (h : Loaded lines cfg m) {sec : Str} (hline : classify line = .header sec)
    {p : Nat} (hp : cfg.map sec = some p) : Loaded (lines ++ [line]) cfg (some p) where
  bound := h.bound
  inj := h.inj
  current := by
    rw [currentSection_append_singleton, hline]
    exact hp.symm
  known := by
    intro other hother
    rw [currentSection_append_singleton, hline] at hother
    cases hother
    rw [hp]
    exact Option.some_ne_none p
  stored := by
    intro other key value
    rw [lastAssigned_append_of_not (fun new hnew => by rw [hline] at hnew; cases hnew)]
    exact h.stored other key value

/-- A new section has an empty map. -/
theorem Loaded.open (h : Loaded lines cfg m) {sec : Str} (hline : classify line = .header sec)
    (hnone : cfg.map sec = none) :
    Loaded (lines ++ [line])
      { map := Function.update cfg.map sec (some cfg.maps.length)
        maps := cfg.maps ++ [fun _ => none] } (some cfg.maps.length) where
  bound := by
    intro other p hp
    simp only [Function.update_apply] at hp
    rw [List.length_append, List.length_singleton]
    split_ifs at hp with heq
    · cases hp
      omega
    · have := h.bound other p hp
      omega
  inj := by
    intro one other p hone hother
    simp only [Function.update_apply] at hone hother
    split_ifs at hone hother with h₁ h₂ h₂
    · rw [h₁, h₂]
    · cases hone
      exact absurd (h.bound other _ hother) (lt_irrefl _)
    · cases hother
      exact absurd (h.bound one _ hone) (lt_irrefl _)
    · exact h.inj one other p hone hother
  current := by
    rw [currentSection_append_singleton, hline]
    simp [Line.header?]
  known := by
    intro other hother
    rw [currentSection_append_singleton, hline] at hother
    cases hother
    simp
  stored := by
    intro other key value
    rw [lastAssigned_append_of_not (fun new hnew => by rw [hline] at hnew; cases hnew),
      ← h.stored other key value]
    by_cases heq : other = sec
    · simp [lookup, heq, hnone]
    · simp only [lookup, Function.update_of_ne heq]
      cases hp : cfg.map other with
      | none => rfl
      | some p =>
          simp only [Option.bind_some]
          rw [List.getElem?_append_left (h.bound other p hp)]

/-- An assignment goes to the map of the current section, which no other section has. -/
theorem Loaded.assign (h : Loaded lines cfg m) {sec key value : Str}
    (hline : classify line = .assign key value) (hsec : currentSection lines = some sec) :
    ∃ p table, cfg.deref m = .ok (p, table) ∧
      Loaded (lines ++ [line])
        { cfg with maps := cfg.maps.set p (Function.update table key (some value)) } m := by
  rcases Option.ne_none_iff_exists'.1 (h.known sec hsec) with ⟨p, hp⟩
  have hm : m = some p := by rw [h.current, hsec, Option.bind_some, hp]
  have hlt := h.bound sec p hp
  refine ⟨p, cfg.maps[p], ?_, ?_⟩
  · rw [hm]
    simp only [deref, List.getElem?_eq_getElem hlt]
  constructor
  case bound =>
    intro other q hq
    rw [List.length_set]
    exact h.bound other q hq
  case inj => exact h.inj
  case current =>
    rw [currentSection_append_singleton, hline]
    exact h.current
  case known =>
    intro other hother
    rw [currentSection_append_singleton, hline] at hother
    exact h.known other hother
  case stored =>
    intro other key' value'
    by_cases hthis : other = sec ∧ key' = key
    · rcases hthis with ⟨rfl, rfl⟩
      rw [lastAssigned_append_of_assign hline hsec]
      simp [lookup, hp, hlt, eq_comm]
    · have hnot : ∀ new, classify line = .assign key' new → currentSection lines ≠ some other := by
        intro new hnew hcur
        rw [hline] at hnew
        rw [hsec] at hcur
        cases hnew
        cases hcur
        exact hthis ⟨rfl, rfl⟩
      rw [lastAssigned_append_of_not hnot, ← h.stored other key' value']
      simp only [lookup]
      cases hq : cfg.map other with
      | none => rfl
      | some q =>
          simp only [Option.bind_some, List.getElem?_set]
          by_cases hpq : p = q
          · subst hpq
            have hsame : other = sec := h.inj other sec p hq hp
            have hkey : key' ≠ key := fun heq => hthis ⟨hsame, heq⟩
            simp [hlt, hkey]
          · simp [hpq]

theorem Loaded.loadLine (h : Loaded lines cfg m)
    (hline : ∀ key value, classify line = .assign key value → currentSection lines ≠ none) :
    ∃ cfg' m', cfg.loadLine m line = .ok (cfg', m') ∧ Loaded (lines ++ [line]) cfg' m' := by
  rw [loadLine_eq]
  cases hclass : classify line with
  | header sec =>
      cases hp : cfg.map sec with
      | none =>
          simp only [hp]
          exact ⟨_, _, rfl, h.open hclass hp⟩
      | some p =>
          simp only [hp]
          exact ⟨_, _, rfl, h.resume hclass hp⟩
  | assign key value =>
      rcases Option.ne_none_iff_exists'.1 (hline key value hclass) with ⟨sec, hsec⟩
      rcases h.assign hclass hsec with ⟨p, table, hderef, hnext⟩
      simp only [hderef, ok_bind]
      exact ⟨_, _, rfl, hnext⟩
  | other => exact ⟨_, _, rfl, h.other hclass⟩

end Step

/-! ## Whole files -/

/-- The rounds of `load` on a new object. -/
def loadLines (lines : List Str) : Except Fault (ConfigFile × Option Nat) :=
  lines.foldlM (fun (cfg, m) line => loadLine cfg m line) (new, none)

theorem loadLines_append_singleton (lines : List Str) (line : Str) :
    loadLines (lines ++ [line]) = (loadLines lines >>= fun r => r.1.loadLine r.2 line) := by
  unfold loadLines
  rw [List.foldlM_append]
  exact bind_congr fun r => by simp only [List.foldlM_cons, List.foldlM_nil, bind_pure]

theorem load_eq (file : Str) :
    new.load (some file) = (do
      let (cfg, _) ← loadLines (fileLines file)
      return (true, cfg)) := by
  simp [load, loadLoop_eq, loadLines]

theorem loadLines_of_sectioned {lines : List Str} (h : Sectioned lines) :
    ∃ cfg m, loadLines lines = .ok (cfg, m) ∧ Loaded lines cfg m := by
  induction lines using List.reverseRecOn with
  | nil => exact ⟨new, none, rfl, loaded_new⟩
  | append_singleton lines line ih =>
      rcases sectioned_append_singleton.1 h with ⟨hlines, hline⟩
      rcases ih hlines with ⟨cfg, m, hload, hloaded⟩
      rw [loadLines_append_singleton, hload, ok_bind]
      exact hloaded.loadLine hline

/-- The first assignment goes through `m`, which is null before the first header. -/
theorem loadLines_of_not_sectioned {lines : List Str} (h : ¬ Sectioned lines) :
    loadLines lines = .error .outOfBounds := by
  induction lines using List.reverseRecOn with
  | nil =>
      refine absurd ?_ h
      intro i hi
      exact absurd hi (Nat.not_lt_zero i)
  | append_singleton lines line ih =>
      rw [loadLines_append_singleton]
      by_cases hlines : Sectioned lines
      · rcases loadLines_of_sectioned hlines with ⟨cfg, m, hload, hloaded⟩
        rw [sectioned_append_singleton] at h
        push Not at h
        rcases h hlines with ⟨key, value, hclass, hnone⟩
        have hm : m = none := by rw [hloaded.current, hnone, Option.bind_none]
        rw [hload, ok_bind, loadLine_eq, hclass, hm]
        rfl
      · rw [ih hlines]
        rfl

/-- The last assignment of a key in a section is what its look-up gives; a key that is not assigned
has the default. -/
theorem load_getString (file : Str) (h : Sectioned (fileLines file)) :
    (∀ s, trim s = strip s ∧ Trimmed s (strip s)) ∧
      ∃ cfg, new.load (some file) = .ok (true, cfg) ∧
        ∀ sec key defaultValue,
          (∀ value, LastAssigned (fileLines file) sec key value →
            cfg.getString sec key defaultValue = .ok value) ∧
          ((∀ i value, ¬ Assigns (fileLines file) i sec key value) →
            cfg.getString sec key defaultValue = .ok defaultValue) := by
  refine ⟨fun s => ⟨trim_eq s, trimmed_strip s⟩, ?_⟩
  rcases loadLines_of_sectioned h with ⟨cfg, m, hload, hloaded⟩
  refine ⟨cfg, by rw [load_eq, hload]; rfl, fun sec key defaultValue => ⟨?_, ?_⟩⟩
  · intro value hlast
    rw [hloaded.getString_eq, (hloaded.stored sec key value).2 hlast, Option.getD_some]
  · intro hnone
    cases hlookup : cfg.lookup sec key with
    | none => rw [hloaded.getString_eq, hlookup, Option.getD_none]
    | some value =>
        rcases (hloaded.stored sec key value).1 hlookup with ⟨i, hi, _⟩
        exact absurd hi (hnone i value)

/-- A file that comes back to a section and sets one of its keys anew:
```
[a]
k=1
[b]
k=x=y
[ a ]
 k =2
``` -/
def sampleFile : Str :=
  [91, 97, 93, 10, 107, 61, 49, 10, 91, 98, 93, 10, 107, 61, 120, 61, 121, 10,
    91, 32, 97, 32, 93, 10, 32, 107, 32, 61, 50]

theorem load_getString_sampleFile :
    Sectioned (fileLines sampleFile) ∧
      ∃ cfg, new.load (some sampleFile) = .ok (true, cfg) ∧
        cfg.getString [97] [107] [] = .ok [50] := by
  refine ⟨by decide, ?_⟩
  rcases load_getString sampleFile (by decide) with ⟨_, cfg, hload, hget⟩
  refine ⟨cfg, hload, (hget [97] [107] []).1 [50] ⟨5, ⟨⟨[32, 107, 32, 61, 50], ?_, ?_⟩, ?_⟩, ?_⟩⟩
  · decide
  · decide
  · decide
  · intro j hj later hlater
    have hlt := hlater.lt_length
    rw [show (fileLines sampleFile).length = 6 by decide] at hlt
    omega

/-- `load` returns, and has stored every assignment under the section of its line. -/
def LoadsSafely (file : Str) : Prop :=
  new.load (some file) ≠ .error .outOfBounds ∧
    ∃ cfg, new.load (some file) = .ok (true, cfg) ∧
      ∀ i line key value, (fileLines file)[i]? = some line → classify line = .assign key value →
        ∃ sec, currentSection ((fileLines file).take i) = some sec ∧
          ((∀ j, i < j → ∀ later, ¬ Assigns (fileLines file) j sec key later) →
            ∀ defaultValue, cfg.getString sec key defaultValue = .ok value)

theorem load_of_not_sectioned {file : Str} (h : ¬ Sectioned (fileLines file)) :
    new.load (some file) = .error .outOfBounds := by
  rw [load_eq, loadLines_of_not_sectioned h]
  rfl

/-- A file is safe to load when no line assigns before the first header, and then only. -/
theorem loadsSafely_iff (file : Str) : LoadsSafely file ↔ Sectioned (fileLines file) := by
  constructor
  · rintro ⟨hsafe, _⟩
    by_contra hnot
    exact hsafe (load_of_not_sectioned hnot)
  · intro h
    rcases loadLines_of_sectioned h with ⟨cfg, m, hload, hloaded⟩
    have hreturn : new.load (some file) = .ok (true, cfg) := by
      rw [load_eq, hload]
      rfl
    refine ⟨by rw [hreturn]; exact nofun, cfg, hreturn, ?_⟩
    intro i line key value hline hassign
    rcases List.getElem?_eq_some_iff.1 hline with ⟨hi, rfl⟩
    rcases Option.ne_none_iff_exists'.1 (h i hi key value hassign) with ⟨sec, hsec⟩
    refine ⟨sec, hsec, fun hlast defaultValue => ?_⟩
    have hstored := (hloaded.stored sec key value).2 ⟨i, ⟨⟨_, hline, hassign⟩, hsec⟩, hlast⟩
    rw [hloaded.getString_eq, hstored, Option.getD_some]

/-- `[]` is too short for a header, so that the line behind it uses a null pointer. -/
theorem not_loadsSafely_emptyHeader :
    ¬ LoadsSafely [91, 93, 10, 97, 61, 49] := by
  rintro ⟨hsafe, _⟩
  exact hsafe (load_of_not_sectioned (by decide))

end ConfigFile
end Reactor
end Rins
