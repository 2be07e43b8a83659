import Rins.Lib.Decimal
import Rins.Reactor.ConfigFile

/-!
# ConfigValues — numbers, switches and lists in a configuration file

The other readers of `config_file` interpret the text that is stored for a key: `get_number` through
a string stream, `get_bool` by a comparison, `get_string_list` by cutting it at commas and tabs.
The programs keep a port in a `short` before they hand it on as a `uint16_t`.

Of the bytes, 44 is a comma and 9 is a tab.
-/

namespace Rins
namespace Reactor

open Lib.Decimal

namespace Config

/-! ## Numbers -/

/-- The bytes of a text in ASCII. -/
def ascii (cs : List Char) : Str :=
  cs.map fun c => UInt8.ofNat c.toNat

/-- The characters of a text in ASCII. -/
def chars (s : Str) : List Char :=
  s.map fun c => Char.ofNat c.toNat

/-- `iss >> v` for a `long long` that is 0 before: blanks are skipped, a number that is too large is
replaced by the nearest one, and 0 stays where there is no number. -/
def extract (s : Str) : Int :=
  match scan (chars (s.dropWhile isspace)) with
  | none => 0
  | some (z, _) => max (-2 ^ 63) (min z (2 ^ 63 - 1))

/-- `config_file::parse_number`. -/
def parseNumber (s : Str) : UInt32 :=
  UInt32.ofInt (extract s)

/-- `short port = ...`, as the parameter of `tcp_server` and of the sockets takes it. -/
def portOf (number : UInt32) : UInt16 :=
  number.toUInt16.toInt16.toUInt16

/-! ## Switches -/

/-- `tolower`, in the locale a program starts with. -/
def tolower (c : UInt8) : UInt8 :=
  if 65 ≤ c ∧ c ≤ 90 then c + 32 else c

/-- `strcasecmp(s.c_str(), t) == 0`. -/
def sameIgnoringCase (s t : Str) : Bool :=
  (s.takeWhile (· ≠ 0)).map tolower == (t.takeWhile (· ≠ 0)).map tolower

/-! ## Lists -/

/-- A character of `",\t"`. -/
def isSep (c : UInt8) : Bool :=
  c == 44 || c == 9

theorem length_ahead_lt {rest behind ahead : Str} {c d : UInt8}
    (hfirst : rest.dropWhile (fun c => !isSep c) = d :: behind)
    (hnext : behind.dropWhile isSep = c :: ahead) : (c :: ahead).length < rest.length := by
  have hle : (rest.dropWhile fun c => !isSep c).length ≤ rest.length :=
    (List.dropWhile_suffix _).length_le
  have hle' : (behind.dropWhile isSep).length ≤ behind.length :=
    (List.dropWhile_suffix _).length_le
  rw [hfirst, List.length_cons] at hle
  rw [hnext] at hle'
  omega

/-- The loop of `get_string_list`, with what lies ahead of `start`. -/
def stringListLoop (rest : Str) : List Str :=
  -- `find_first_of`: a separator is at `index`, and `behind` it the string goes on
  match _ : rest.dropWhile (fun c => !isSep c) with
  | [] => [rest]
  | _ :: behind =>
      -- `find_first_not_of`, from the separator on
      match _ : behind.dropWhile isSep with
      | [] => [rest.takeWhile fun c => !isSep c]
      | c :: ahead => (rest.takeWhile fun c => !isSep c) :: stringListLoop (c :: ahead)
termination_by rest.length
decreasing_by exact length_ahead_lt ‹_› ‹_›

/-- The parts between the separators: the first one, and of the others those that are not empty. -/
def fields (text : Str) : List Str :=
  match text.splitOnP isSep with
  | [] => []
  | first :: others => first :: others.filter fun part => !part.isEmpty

/-! ## What the readers read -/

theorem chars_ascii {cs : List Char} (h : ∀ c ∈ cs, c.toNat < 256) : chars (ascii cs) = cs := by
  induction cs with
  | nil => rfl
  | cons c cs ih =>
      have hc : Char.ofNat (UInt8.ofNat c.toNat).toNat = c := by
        rw [UInt8.toNat_ofNat_of_lt' (h c List.mem_cons_self)]
        exact Char.ofNat_toNat c
      have hrest := ih fun d hd => h d (List.mem_cons_of_mem c hd)
      simp only [chars, ascii, List.map_cons, hc] at hrest ⊢
      rw [hrest]

theorem dropWhile_sep_split (text : Str) :
    (text.splitOnP isSep).filter (fun part => !part.isEmpty) =
      ((text.dropWhile isSep).splitOnP isSep).filter fun part => !part.isEmpty := by
  induction text with
  | nil => rfl
  | cons c text ih =>
      by_cases hsep : isSep c = true
      · rw [List.dropWhile_cons_of_pos hsep, List.splitOnP_cons_eq_if_modifyHead, if_pos hsep]
        simpa using ih
      · rw [List.dropWhile_cons_of_neg hsep]

/-- The first part of a text that does not begin with a separator is not empty. -/
theorem fields_of_not_sep {c : UInt8} (hc : isSep c = false) (text : Str) :
    fields (c :: text) =
      ((c :: text).splitOnP isSep).filter fun part => !part.isEmpty := by
  unfold fields
  rw [List.splitOnP_cons_eq_if_modifyHead, if_neg (by simp [hc])]
  cases text.splitOnP isSep with
  | nil => rfl
  | cons first others => simp

theorem isSep_of_dropWhile {rest behind : Str} {d : UInt8}
    (hfirst : rest.dropWhile (fun c => !isSep c) = d :: behind) : isSep d = true := by
  have hhead := List.head?_dropWhile_not (fun c => !isSep c) rest
  rw [hfirst] at hhead
  simpa using hhead

theorem isSep_of_dropWhile_sep {behind ahead : Str} {c : UInt8}
    (hnext : behind.dropWhile isSep = c :: ahead) : isSep c = false := by
  have hhead := List.head?_dropWhile_not isSep behind
  rw [hnext] at hhead
  simpa using hhead

/-- A text is cut at its first separator. -/
theorem splitOnP_of_dropWhile {rest behind : Str} {d : UInt8}
    (hfirst : rest.dropWhile (fun c => !isSep c) = d :: behind) :
    rest.splitOnP isSep =
      (rest.takeWhile fun c => !isSep c) :: behind.splitOnP isSep := by
  have hfront : ∀ c ∈ rest.takeWhile (fun c => !isSep c), isSep c = false := by
    intro c hc
    simpa using List.mem_takeWhile_imp hc
  have hcut := List.splitOnP_append_cons_of_forall_mem hfront d (isSep_of_dropWhile hfirst) behind
  rw [← hfirst, List.takeWhile_append_dropWhile] at hcut
  exact hcut

/-- The loop of `get_string_list` finds the parts between the separators. -/
theorem stringListLoop_eq (text : Str) : stringListLoop text = fields text := by
  induction text using stringListLoop.induct with
  | case1 rest hfirst =>
      have hnone : ∀ c ∈ rest, isSep c = false := by
        intro c hc
        simpa using List.dropWhile_eq_nil_iff.1 hfirst c hc
      rw [stringListLoop, fields, List.splitOnP_eq_singleton hnone]
      split
      · rfl
      · next heq => simp [hfirst] at heq
  | case2 rest d behind hfirst hnext =>
      have hempty : (behind.splitOnP isSep).filter (fun part => !part.isEmpty) = [] := by
        rw [dropWhile_sep_split, hnext]
        rfl
      rw [stringListLoop, fields, splitOnP_of_dropWhile hfirst]
      simp only [hempty]
      split
      · next heq => simp [hfirst] at heq
      · next heq =>
          rw [hfirst] at heq
          cases heq
          split
          · rfl
          · next heq' => simp [hnext] at heq'
  | case3 rest d behind hfirst c ahead hnext ih =>
      have hothers : (behind.splitOnP isSep).filter (fun part => !part.isEmpty) =
          fields (c :: ahead) := by
        rw [dropWhile_sep_split, hnext, fields_of_not_sep (isSep_of_dropWhile_sep hnext)]
      rw [stringListLoop, fields, splitOnP_of_dropWhile hfirst]
      simp only [hothers]
      split
      · next heq => simp [hfirst] at heq
      · next heq =>
          rw [hfirst] at heq
          cases heq
          split
          · next heq' => simp [hnext] at heq'
          · next heq' =>
              rw [hnext] at heq'
              cases heq'
              rw [ih]

/-- Parts that are not empty and have no separators in them are found again. -/
theorem fields_intercalate {parts : List Str} (hne : parts ≠ [])
    (hparts : ∀ part ∈ parts, part ≠ [] ∧ ∀ c ∈ part, isSep c = false) :
    fields ([44].intercalate parts) = parts := by
  have hsplit : ([44].intercalate parts).splitOnP isSep = parts := by
    induction parts with
    | nil => exact absurd rfl hne
    | cons part others ih =>
        rcases List.forall_mem_cons.1 hparts with ⟨hpart, hothers⟩
        cases others with
        | nil => rw [List.intercalate_singleton, List.splitOnP_eq_singleton hpart.2]
        | cons next others =>
            rw [List.intercalate_cons_cons, List.append_assoc, List.singleton_append,
              List.splitOnP_append_cons_of_forall_mem hpart.2 44 (by decide),
              ih (List.cons_ne_nil _ _) hothers]
  rw [fields, hsplit]
  cases parts with
  | nil => exact absurd rfl hne
  | cons part others =>
      rcases List.forall_mem_cons.1 hparts with ⟨-, hothers⟩
      have hall : others.filter (fun part => !part.isEmpty) = others := by
        refine List.filter_eq_self.2 fun other hother => ?_
        simpa using (hothers other hother).1
      simp only [hall]

/-- A number is written with digits and a minus sign. -/
theorem decimal_chars {z : Int} {c : Char} (hc : c ∈ decimal z) : 45 ≤ c.toNat ∧ c.toNat ≤ 57 := by
  have hdigit : ∀ n, c ∈ Nat.toDigits 10 n → 45 ≤ c.toNat ∧ c.toNat ≤ 57 := by
    intro n hn
    have hc : c.isDigit = true := Nat.isDigit_of_mem_toDigits (by decide) (by decide) hn
    simp only [Char.isDigit, Bool.and_eq_true, decide_eq_true_eq, ge_iff_le,
      UInt32.le_iff_toNat_le] at hc
    exact ⟨Nat.le_trans (by decide) hc.1, hc.2⟩
  cases z with
  | ofNat n => exact hdigit n hc
  | negSucc n =>
      rcases List.mem_cons.1 hc with rfl | hc
      · exact ⟨by decide, by decide⟩
      · exact hdigit _ hc

theorem isspace_ofNat {n : Nat} (hlo : 45 ≤ n) (hhi : n ≤ 57) :
    isspace (UInt8.ofNat n) = false := by
  have hn : (UInt8.ofNat n).toNat = n :=
    UInt8.toNat_ofNat_of_lt' (Nat.lt_of_le_of_lt hhi (by decide))
  simp only [isspace, Bool.or_eq_false_iff, beq_eq_false_iff_ne, Bool.and_eq_false_iff,
    decide_eq_false_iff_not, UInt8.le_iff_toNat_le, ← UInt8.toNat_inj.not, hn]
  refine ⟨?_, Or.inr ?_⟩
  · change n ≠ 32
    omega
  · change ¬ n ≤ 13
    omega

/-- A number is read up to the first character that is no digit. -/
theorem extract_decimal {z : Int} (hlo : -2 ^ 63 ≤ z) (hhi : z < 2 ^ 63) {rest : Str}
    (hrest : Stops (chars rest)) : extract (ascii (decimal z) ++ rest) = z := by
  have hfront : (ascii (decimal z) ++ rest).dropWhile isspace = ascii (decimal z) ++ rest := by
    cases hdecimal : decimal z with
    | nil => cases z <;> simp [decimal, Nat.toDigits_ne_nil] at hdecimal
    | cons c cs =>
        have hc := decimal_chars (z := z) (c := c) (by simp [hdecimal])
        exact List.dropWhile_cons_of_neg (by simp [isspace_ofNat hc.1 hc.2])
  have hchars : chars (ascii (decimal z) ++ rest) = decimal z ++ chars rest := by
    have hdecimal : chars (ascii (decimal z)) = decimal z := by
      refine chars_ascii fun c hc => ?_
      have := decimal_chars hc
      omega
    rw [chars, List.map_append]
    exact congrArg (· ++ chars rest) hdecimal
  simp only [extract, hfront, hchars, scan_decimal z hrest]
  omega

/-- A port comes through the `short` as it is. -/
theorem portOf_ofInt (z : Int) : portOf (UInt32.ofInt z) = UInt16.ofInt z := by
  rw [portOf, UInt16.toUInt16_toInt16]
  refine UInt16.toNat_inj.1 ?_
  rw [UInt32.toNat_toUInt16, UInt32.ofInt, UInt16.ofInt, UInt32.toNat_ofNat', UInt16.toNat_ofNat']
  omega

end Config

namespace ConfigFile

open Config

/-- `get_number` and `get_bool`: what is stored for the key is read, and the default is returned
where nothing is stored. -/
def readValue {α : Type} (cfg : ConfigFile) (sec key : Str) (defaultValue : α) (read : Str → α) :
    Except Fault α :=
  match cfg.map sec with
  | none => .ok defaultValue
  | some p => do
      let (_, table) ← cfg.deref (some p)
      match table key with
      | some value => return read value
      | none => return defaultValue

/-- `config_file::get_number`. -/
def getNumber (cfg : ConfigFile) (sec key : Str) (defaultValue : UInt32) : Except Fault UInt32 :=
  cfg.readValue sec key defaultValue parseNumber

/-- `config_file::get_bool`.  A text other than `true` gives the default, not `false`. -/
def getBool (cfg : ConfigFile) (sec key : Str) (defaultValue : Bool) : Except Fault Bool :=
  cfg.readValue sec key defaultValue fun value =>
    if sameIgnoringCase value [116, 114, 117, 101] then true else defaultValue

/-- `config_file::get_string_list`. -/
def getStringList (cfg : ConfigFile) (sec key : Str) : Except Fault (List Str) := do
  let str ← cfg.getString sec key []
  return stringListLoop str

theorem Loaded.readValue_eq {α : Type} {lines : List Str} {cfg : ConfigFile} {m : Option Nat}
    (h : Loaded lines cfg m) (sec key : Str) (defaultValue : α) (read : Str → α) :
    cfg.readValue sec key defaultValue read =
      .ok (((cfg.lookup sec key).map read).getD defaultValue) := by
  unfold readValue lookup
  cases hp : cfg.map sec with
  | none => rfl
  | some p =>
      have hlt := h.bound sec p hp
      simp only [deref, List.getElem?_eq_getElem hlt, ok_bind, Option.bind_some]
      cases cfg.maps[p] key with
      | none => rfl
      | some value => rfl

theorem Loaded.lookup_eq_none {lines : List Str} {cfg : ConfigFile} {m : Option Nat}
    (h : Loaded lines cfg m) {sec key : Str} (hnone : ∀ i value, ¬ Assigns lines i sec key value) :
    cfg.lookup sec key = none := by
  cases hlookup : cfg.lookup sec key with
  | none => rfl
  | some value =>
      rcases (h.stored sec key value).1 hlookup with ⟨i, hi, _⟩
      exact absurd hi (hnone i value)

/-- A switch that is on by default cannot be switched off. -/
theorem Loaded.getBool_eq {lines : List Str} {cfg : ConfigFile} {m : Option Nat}
    (h : Loaded lines cfg m) (sec key : Str) (defaultValue : Bool) :
    cfg.getBool sec key defaultValue =
      .ok (defaultValue || (cfg.lookup sec key).any
        fun value => sameIgnoringCase value [116, 114, 117, 101]) := by
  rw [getBool, h.readValue_eq]
  cases cfg.lookup sec key with
  | none => simp
  | some value =>
      cases hsame : sameIgnoringCase value [116, 114, 117, 101] with
      | true => simp [hsame]
      | false => simp [hsame]

/-- A number that is assigned last, with any other text behind it, is read by `get_number` up to its
multiples of `2^32`, and becomes the port that it is; a key that is not assigned has the default. -/
theorem load_getNumber (file : Str) (h : Sectioned (fileLines file)) :
    ∃ cfg, new.load (some file) = .ok (true, cfg) ∧ ∀ sec key defaultValue,
      (∀ z rest, -2 ^ 63 ≤ z → z < 2 ^ 63 → Stops (chars rest) →
        LastAssigned (fileLines file) sec key (ascii (decimal z) ++ rest) →
        ∃ number, cfg.getNumber sec key defaultValue = .ok number ∧ number = UInt32.ofInt z ∧
          portOf number = UInt16.ofInt z) ∧
      ((∀ i value, ¬ Assigns (fileLines file) i sec key value) →
        cfg.getNumber sec key defaultValue = .ok defaultValue) := by
  rcases loadLines_of_sectioned h with ⟨cfg, m, hload, hloaded⟩
  refine ⟨cfg, by rw [load_eq, hload]; rfl, fun sec key defaultValue => ⟨?_, ?_⟩⟩
  · intro z rest hlo hhi hrest hlast
    refine ⟨UInt32.ofInt z, ?_, rfl, portOf_ofInt z⟩
    rw [getNumber, hloaded.readValue_eq, (hloaded.stored sec key _).2 hlast, Option.map_some,
      Option.getD_some, parseNumber, extract_decimal hlo hhi hrest]
  · intro hnone
    rw [getNumber, hloaded.readValue_eq, hloaded.lookup_eq_none hnone]
    rfl

/-- A port with a remark behind it:
```
[r]
p = 7778 ;
``` -/
def portFile : Str :=
  [91, 114, 93, 10, 112, 32, 61, 32, 55, 55, 55, 56, 32, 59]

theorem load_getNumber_portFile :
    ∃ cfg, new.load (some portFile) = .ok (true, cfg) ∧
      cfg.getNumber [114] [112] 0 = .ok 7778 ∧ portOf 7778 = 7778 := by
  rcases load_getNumber portFile (by decide) with ⟨cfg, hload, hget⟩
  have hlast : LastAssigned (fileLines portFile) [114] [112]
      (ascii (decimal 7778) ++ [32, 59]) := by
    refine ⟨1, ⟨⟨[112, 32, 61, 32, 55, 55, 55, 56, 32, 59], by decide, by decide⟩, by decide⟩, ?_⟩
    intro j hj later hlater
    have hlt := hlater.lt_length
    rw [show (fileLines portFile).length = 2 by decide] at hlt
    omega
  rcases (hget [114] [112] 0).1 7778 [32, 59] (by decide) (by decide) (by decide) hlast with
    ⟨number, hnumber, rfl, hport⟩
  exact ⟨cfg, hload, hnumber, hport⟩

/-- `get_string_list` gives the parts of the text that was assigned last: the first one, and of the
others those that are not empty.  So it gives back a list that was written with commas. -/
theorem load_getStringList (file : Str) (h : Sectioned (fileLines file)) :
    ∃ cfg, new.load (some file) = .ok (true, cfg) ∧ ∀ sec key,
      (∀ value, LastAssigned (fileLines file) sec key value →
        cfg.getStringList sec key = .ok (fields value)) ∧
      (∀ parts, parts ≠ [] → (∀ part ∈ parts, part ≠ [] ∧ ∀ c ∈ part, isSep c = false) →
        LastAssigned (fileLines file) sec key ([44].intercalate parts) →
        cfg.getStringList sec key = .ok parts) ∧
      ((∀ i value, ¬ Assigns (fileLines file) i sec key value) →
        cfg.getStringList sec key = .ok [[]]) := by
  rcases loadLines_of_sectioned h with ⟨cfg, m, hload, hloaded⟩
  have hvalue : ∀ sec key value, LastAssigned (fileLines file) sec key value →
      cfg.getStringList sec key = .ok (fields value) := by
    intro sec key value hlast
    rw [getStringList, hloaded.getString_eq, (hloaded.stored sec key value).2 hlast,
      Option.getD_some, ok_bind, stringListLoop_eq]
    rfl
  refine ⟨cfg, by rw [load_eq, hload]; rfl, fun sec key => ⟨hvalue sec key, ?_, ?_⟩⟩
  · intro parts hne hparts hlast
    rw [hvalue sec key _ hlast, fields_intercalate hne hparts]
  · intro hnone
    rw [getStringList, hloaded.getString_eq, hloaded.lookup_eq_none hnone, Option.getD_none,
      ok_bind, stringListLoop_eq]
    rfl

/-- A list with a separator too many:
```
[r]
l=a,b,
``` -/
def listFile : Str :=
  [91, 114, 93, 10, 108, 61, 97, 44, 98, 44]

theorem load_getStringList_listFile :
    ∃ cfg, new.load (some listFile) = .ok (true, cfg) ∧
      cfg.getStringList [114] [108] = .ok [[97], [98]] := by
  rcases load_getStringList listFile (by decide) with ⟨cfg, hload, hget⟩
  have hlast : LastAssigned (fileLines listFile) [114] [108] [97, 44, 98, 44] := by
    refine ⟨1, ⟨⟨[108, 61, 97, 44, 98, 44], by decide, by decide⟩, by decide⟩, ?_⟩
    intro j hj later hlater
    have hlt := hlater.lt_length
    rw [show (fileLines listFile).length = 2 by decide] at hlt
    omega
  exact ⟨cfg, hload, (hget [114] [108]).1 _ hlast⟩

end ConfigFile
end Reactor
end Rins
