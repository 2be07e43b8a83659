import Mathlib.Algebra.GroupWithZero.Nat
import Mathlib.Data.List.Basic
import Mathlib.Data.List.Forall2
import Rins.Lib.Varint

/-!
# Wire — messages as sequences of tagged fields

A message on the wire is a sequence of records: a tag, which names a field and tells how the value
is written, and the value.  A field that has its default is left out, a repeated field has one
record for each element, and a reader passes over the tags that it does not know.

`Wire` has the routines of a runtime library and what is known about them, `Field` is the code that
is generated for one field and `MessageType` that for one class:

* `MessageType.internalParse`  : the loop over the records, with the loop inside it for a repeated
  field;
* `MessageType.Absorbs`        : a piece of wire text does to a message what a function does;
* `MessageType.parse_serialize` : reading what was written is merging.
-/

namespace Rins
namespace Lib

/-- The longest message that may stand inside another one: the largest `int` less 16. -/
def sizeLimit : Nat := 2147483631

/-- How long the value is that a tag for eight bytes or for four bytes has behind it. -/
def fixedLength (tag : UInt32) : Option Nat :=
  if tag.toNat % 8 = 1 then some 8 else if tag.toNat % 8 = 5 then some 4 else none

/-- The routines of a runtime library for tagged fields.  What they do about malformed text is left
open. -/
structure Wire where
  /-- the bytes of a number -/
  varint : UInt64 → List UInt8
  varintSize : UInt64 → Nat
  readVarint : List UInt8 → Option (UInt64 × List UInt8)
  readTag : List UInt8 → Option (UInt32 × List UInt8)
  /-- the length in front of delimited bytes -/
  readSize : List UInt8 → Option (Nat × List UInt8)
  /-- what lies behind the value of a field that is not known -/
  skip : UInt32 → List UInt8 → Option (List UInt8)
  varintSize_eq : ∀ v, varintSize v = (varint v).length
  varint_small : ∀ v, v.toNat < 128 → varint v = [v.toUInt8]
  length_varint_le : ∀ v bytes, 0 < bytes → v.toNat < 128 ^ bytes → (varint v).length ≤ bytes
  readVarint_varint : ∀ v rest, readVarint (varint v ++ rest) = some (v, rest)
  readTag_varint : ∀ tag rest, readTag (varint tag.toUInt64 ++ rest) = some (tag, rest)
  readSize_varint : ∀ n rest, n ≤ sizeLimit →
    readSize (varint (UInt64.ofNat n) ++ rest) = some (n, rest)
  readVarint_lt : ∀ {bs v rest}, readVarint bs = some (v, rest) → rest.length < bs.length
  readTag_lt : ∀ {bs tag rest}, readTag bs = some (tag, rest) → rest.length < bs.length
  readSize_lt : ∀ {bs n rest}, readSize bs = some (n, rest) → rest.length < bs.length
  skip_le : ∀ {tag bs rest}, skip tag bs = some rest → rest.length ≤ bs.length
  skip_varint : ∀ tag v rest, 8 ≤ tag.toNat → tag.toNat % 8 = 0 →
    skip tag (varint v ++ rest) = some rest
  skip_delimited : ∀ tag value rest, 8 ≤ tag.toNat → tag.toNat % 8 = 2 → value.length ≤ sizeLimit →
    skip tag (varint (UInt64.ofNat value.length) ++ (value ++ rest)) = some rest
  skip_fixed : ∀ tag value rest, 8 ≤ tag.toNat → fixedLength tag = some value.length →
    skip tag (value ++ rest) = some rest

/-! ## Fields -/

/-- The byte of a small tag, followed by the value. -/
def record (tag : UInt32) (value : List UInt8) : List UInt8 :=
  tag.toUInt8 :: value

@[simp] theorem length_record (tag : UInt32) (value : List UInt8) :
    (record tag value).length = 1 + value.length :=
  Nat.add_comm _ _

/-- The code for one field of a class `μ`. -/
structure Field (w : Wire) (μ : Type) where
  tag : UInt32
  /-- records that follow directly are read in a loop of their own -/
  repeated : Bool
  /-- where the pointer is behind the value, null for a failure, and the message -/
  parse : List UInt8 → μ → Option (List UInt8) × μ
  serialize : μ → List UInt8
  byteSize : μ → Nat
  /-- merge the field of the first message into the second -/
  merge : μ → μ → μ
  tag_small : tag.toNat < 128
  parse_le : ∀ bs m rest, (parse bs m).1 = some rest → rest.length ≤ bs.length
  byteSize_eq : ∀ m, byteSize m = (serialize m).length
  /-- what is written are records of the field, and to read them is to merge -/
  reads_back : ∀ src, ∃ values : List (List UInt8 × (μ → μ)),
    serialize src = values.flatMap (fun value => record tag value.1) ∧
    (∀ value ∈ values, ∀ rest dst, parse (value.1 ++ rest) dst = (some rest, value.2 dst)) ∧
    ∀ dst, values.foldl (fun dst value => value.2 dst) dst = merge src dst

namespace Field

variable {w : Wire} {μ : Type}

/-- The `case` of a field: a record, and for a repeated field the records right behind it. -/
def parseCase (f : Field w μ) (bs : List UInt8) (m : μ) : Option (List UInt8) × μ :=
  match _ : f.parse bs m with
  | (none, m) => (none, m)
  | (some [], m) => (some [], m)
  | (some (b :: rest), m) =>
      if f.repeated ∧ b = f.tag.toUInt8 then parseCase f rest m else (some (b :: rest), m)
termination_by bs.length
decreasing_by
  have hle := f.parse_le bs _ _ (congrArg Prod.fst ‹f.parse bs _ = _›)
  rw [List.length_cons] at hle
  omega

theorem parseCase_none {f : Field w μ} {bs : List UInt8} {m m' : μ}
    (h : f.parse bs m = (none, m')) : f.parseCase bs m = (none, m') := by
  rw [parseCase]
  split <;> simp_all

/-- One more round, or the end. -/
theorem parseCase_some {f : Field w μ} {bs rest : List UInt8} {m m' : μ}
    (h : f.parse bs m = (some rest, m')) :
    f.parseCase bs m = (some rest, m') ∨
      ∃ value, rest = record f.tag value ∧ f.parseCase bs m = f.parseCase value m' := by
  rw [parseCase]
  split
  · simp_all
  · simp_all
  · next b rest' m'' hparse =>
      rw [h] at hparse
      cases hparse
      split_ifs with hagain
      · exact Or.inr ⟨rest', by rw [hagain.2]; rfl, rfl⟩
      · exact Or.inl rfl

theorem parseCase_le (f : Field w μ) (bs : List UInt8) (m : μ) (rest : List UInt8)
    (h : (f.parseCase bs m).1 = some rest) : rest.length ≤ bs.length := by
  induction hlen : bs.length using Nat.strongRecOn generalizing bs m with
  | _ n ih =>
      unfold parseCase at h
      split at h
      · cases h
      · next m' hparse =>
          cases h
          simp
      · next b rest' m' hparse =>
          have hle := f.parse_le bs m (b :: rest') (by rw [hparse])
          rw [List.length_cons] at hle
          split_ifs at h
          · have hrest := ih rest'.length (by omega) rest' m' h rfl
            omega
          · cases h
            rw [List.length_cons]
            omega

end Field

/-! ## Classes -/

/-- The code for a class: its default instance and its fields, in the order of their numbers. -/
structure MessageType (w : Wire) (μ : Type) where
  default : μ
  fields : List (Field w μ)
  tags_nodup : (fields.map Field.tag).Nodup
  /-- a message is what its fields are -/
  merge_default : ∀ src, fields.foldl (fun dst f => f.merge src dst) default = src
  /-- no field touches another -/
  merge_comm : fields.Pairwise fun f g => ∀ a b dst,
    f.merge a (g.merge b dst) = g.merge b (f.merge a dst)

namespace MessageType

variable {w : Wire} {μ : Type}

/-- `_InternalSerialize`. -/
def internalSerialize (t : MessageType w μ) (m : μ) : List UInt8 :=
  t.fields.flatMap fun f => f.serialize m

/-- `ByteSizeLong`. -/
def byteSizeLong (t : MessageType w μ) (m : μ) : Nat :=
  (t.fields.map fun f => f.byteSize m).sum

/-- `MergeImpl`. -/
def mergeFrom (t : MessageType w μ) (src dst : μ) : μ :=
  t.fields.foldl (fun dst f => f.merge src dst) dst

/-- `_InternalParse` on the bytes up to the limit, and whether it ended at the limit. -/
def internalParse (t : MessageType w μ) (bs : List UInt8) (m : μ) : Bool × μ :=
  match bs with
  | [] => (true, m)
  | b :: bs =>
      match _ : w.readTag (b :: bs) with
      | none => (false, m)
      | some (tag, rest) =>
          match t.fields.find? fun f => f.tag = tag with
          | some f =>
              match _ : f.parseCase rest m with
              | (none, m) => (false, m)
              | (some rest, m) => internalParse t rest m
          | none =>
              -- `handle_unusual`; a tag 0 or the end of a group ends the message before the limit
              if tag = 0 ∨ tag.toNat % 8 = 4 then (false, m)
              else
                match _ : w.skip tag rest with
                | none => (false, m)
                | some rest => internalParse t rest m
termination_by bs.length
decreasing_by
  · have htag := w.readTag_lt ‹w.readTag _ = _›
    have hvalue := f.parseCase_le _ _ _ (congrArg Prod.fst ‹f.parseCase _ _ = _›)
    omega
  · have htag := w.readTag_lt ‹w.readTag _ = _›
    have hvalue := w.skip_le ‹w.skip _ _ = _›
    omega

/-- `ParseFromArray`, which clears the message first. -/
def parseFromArray (t : MessageType w μ) (bs : List UInt8) : Bool × μ :=
  t.internalParse bs t.default

/-! ### The loop, record by record -/

@[simp] theorem internalParse_nil (t : MessageType w μ) (m : μ) :
    t.internalParse [] m = (true, m) := by
  unfold internalParse
  rfl

theorem readTag_record {tag : UInt32} (hsmall : tag.toNat < 128) (value : List UInt8) :
    w.readTag (record tag value) = some (tag, value) := by
  have hbytes : w.varint tag.toUInt64 = [tag.toUInt8] := by
    rw [w.varint_small _ (by simpa using hsmall)]
    simp
  have hread := w.readTag_varint tag value
  rwa [hbytes, List.singleton_append] at hread

theorem find_field {t : MessageType w μ} {f : Field w μ} (hf : f ∈ t.fields) :
    (t.fields.find? fun g => g.tag = f.tag) = some f := by
  have hnodup := t.tags_nodup
  revert hnodup hf
  generalize t.fields = fields
  intro hf hnodup
  induction fields with
  | nil => cases hf
  | cons g fields ih =>
      rw [List.map_cons, List.nodup_cons] at hnodup
      rcases List.mem_cons.1 hf with rfl | hrest
      · simp
      · -- the tag of a field further back is none of those before
        have hne : g.tag ≠ f.tag := by
          intro heq
          exact hnodup.1 (heq ▸ List.mem_map_of_mem hrest)
        rw [List.find?_cons_of_neg (by simpa using hne)]
        exact ih hrest hnodup.2

theorem internalParse_case {t : MessageType w μ} {f : Field w μ} (hf : f ∈ t.fields)
    (bs : List UInt8) (m : μ) :
    t.internalParse (record f.tag bs) m =
      match f.parseCase bs m with
      | (none, m) => (false, m)
      | (some rest, m) => t.internalParse rest m := by
  rw [show record f.tag bs = f.tag.toUInt8 :: bs from rfl, internalParse]
  have htag := readTag_record (w := w) f.tag_small bs
  rw [show record f.tag bs = f.tag.toUInt8 :: bs from rfl] at htag
  split
  · next hnone =>
      rw [htag] at hnone
      cases hnone
  · next tag rest hsome =>
      rw [htag] at hsome
      cases hsome
      rw [find_field hf]
      simp only
      split <;> next hcase => rw [hcase]

/-- The inner loop of a repeated field makes no difference: a record at a time is enough. -/
theorem internalParse_record {t : MessageType w μ} {f : Field w μ} (hf : f ∈ t.fields)
    (bs : List UInt8) (m : μ) :
    t.internalParse (record f.tag bs) m =
      match f.parse bs m with
      | (none, m) => (false, m)
      | (some rest, m) => t.internalParse rest m := by
  rw [internalParse_case hf]
  cases hparse : f.parse bs m with
  | mk rest m' =>
      cases rest with
      | none => rw [Field.parseCase_none hparse]
      | some rest =>
          rcases Field.parseCase_some hparse with hend | ⟨value, rfl, hagain⟩
          · rw [hend]
          · -- where the inner loop goes on, the outer one finds the tag of the same field
            rw [hagain]
            exact (internalParse_case hf value m').symm

theorem internalParse_unknown {t : MessageType w μ} {tag : UInt32}
    (hunknown : tag ∉ t.fields.map Field.tag) (hnumber : 8 ≤ tag.toNat)
    (hgroup : tag.toNat % 8 ≠ 4) {value rest : List UInt8} (hskip : w.skip tag value = some rest)
    (m : μ) : t.internalParse (w.varint tag.toUInt64 ++ value) m = t.internalParse rest m := by
  have htag := w.readTag_varint tag value
  have hfind : (t.fields.find? fun f => f.tag = tag) = none := by
    rw [List.find?_eq_none]
    intro f hf heq
    exact hunknown (List.mem_map.2 ⟨f, hf, by simpa using heq⟩)
  have hzero : tag ≠ 0 := by
    rintro rfl
    simp at hnumber
  cases hbs : w.varint tag.toUInt64 ++ value with
  | nil =>
      have hlt := w.readTag_lt htag
      rw [hbs] at hlt
      cases hlt
  | cons b bs =>
      rw [hbs] at htag
      rw [internalParse]
      split
      · next hnone =>
          rw [htag] at hnone
          cases hnone
      · next tag' rest' hsome =>
          rw [htag] at hsome
          cases hsome
          rw [hfind]
          simp only
          rw [if_neg (by simp [hzero, hgroup])]
          split
          · next hnone =>
              rw [hskip] at hnone
              cases hnone
          · next rest'' hsome =>
              rw [hskip] at hsome
              cases hsome
              rfl

/-! ### Pieces of wire text -/

/-- To read the bytes is to apply the function, whatever comes behind them. -/
def Absorbs (t : MessageType w μ) (bs : List UInt8) (effect : μ → μ) : Prop :=
  ∀ rest m, t.internalParse (bs ++ rest) m = t.internalParse rest (effect m)

section Absorbs

variable {t : MessageType w μ}

theorem Absorbs.nil : t.Absorbs [] id :=
  fun _ _ => rfl

theorem Absorbs.append {bs bs' : List UInt8} {effect effect' : μ → μ} (h : t.Absorbs bs effect)
    (h' : t.Absorbs bs' effect') : t.Absorbs (bs ++ bs') (effect' ∘ effect) := by
  intro rest m
  rw [List.append_assoc, h, h']
  rfl

/-- One piece after the other. -/
theorem Absorbs.flatMap {ι : Type} {items : List ι} {bytes : ι → List UInt8}
    {effect : ι → μ → μ} (h : ∀ i ∈ items, t.Absorbs (bytes i) (effect i)) :
    t.Absorbs (items.flatMap bytes) fun m => items.foldl (fun m i => effect i m) m := by
  induction items with
  | nil => exact Absorbs.nil
  | cons i items ih =>
      rw [List.flatMap_cons]
      exact (h i List.mem_cons_self).append (ih fun j hj => h j (List.mem_cons_of_mem i hj))

theorem Absorbs.record {f : Field w μ} (hf : f ∈ t.fields) {value : List UInt8} {effect : μ → μ}
    (h : ∀ rest m, f.parse (value ++ rest) m = (some rest, effect m)) :
    t.Absorbs (Lib.record f.tag value) effect := by
  intro rest m
  have hrecord := internalParse_record hf (value ++ rest) m
  rw [h] at hrecord
  exact hrecord

theorem Absorbs.field {f : Field w μ} (hf : f ∈ t.fields) (src : μ) :
    t.Absorbs (f.serialize src) (f.merge src) := by
  rcases f.reads_back src with ⟨values, hbytes, hread, hmerge⟩
  rw [hbytes, show f.merge src = fun dst => values.foldl (fun dst value => value.2 dst) dst from
    funext fun dst => (hmerge dst).symm]
  exact Absorbs.flatMap fun value hvalue => Absorbs.record hf (hread value hvalue)

/-- A field that is not known, and is written as a number. -/
theorem Absorbs.unknown_varint {tag : UInt32} (hunknown : tag ∉ t.fields.map Field.tag)
    (hnumber : 8 ≤ tag.toNat) (htype : tag.toNat % 8 = 0) (v : UInt64) :
    t.Absorbs (w.varint tag.toUInt64 ++ w.varint v) id := by
  intro rest m
  rw [List.append_assoc]
  exact internalParse_unknown hunknown hnumber (by omega)
    (w.skip_varint tag v rest hnumber htype) m

/-- A field that is not known, and is written as four bytes or as eight. -/
theorem Absorbs.unknown_fixed {tag : UInt32} (hunknown : tag ∉ t.fields.map Field.tag)
    (hnumber : 8 ≤ tag.toNat) {value : List UInt8} (hsize : fixedLength tag = some value.length) :
    t.Absorbs (w.varint tag.toUInt64 ++ value) id := by
  intro rest m
  rw [List.append_assoc]
  refine internalParse_unknown hunknown hnumber ?_ (w.skip_fixed tag value rest hnumber hsize) m
  unfold fixedLength at hsize
  split_ifs at hsize
  · omega
  · omega

/-- A field that is not known, and is written as delimited bytes. -/
theorem Absorbs.unknown_delimited {tag : UInt32} (hunknown : tag ∉ t.fields.map Field.tag)
    (hnumber : 8 ≤ tag.toNat) (htype : tag.toNat % 8 = 2) {value : List UInt8}
    (hsize : value.length ≤ sizeLimit) :
    t.Absorbs (w.varint tag.toUInt64 ++ (w.varint (UInt64.ofNat value.length) ++ value)) id := by
  intro rest m
  rw [List.append_assoc, List.append_assoc]
  exact internalParse_unknown hunknown hnumber (by omega)
    (w.skip_delimited tag value rest hnumber htype hsize) m

theorem Absorbs.serialize (t : MessageType w μ) (src : μ) :
    t.Absorbs (t.internalSerialize src) (t.mergeFrom src) :=
  Absorbs.flatMap fun _ hf => Absorbs.field hf src

end Absorbs

/-! ### Pieces of a message -/

/-- A piece of wire text: the records of one field of some message, or a record of a field that the
class does not know.  Groups are left out. -/
inductive Piece (t : MessageType w μ)
  | field (f : Field w μ) (known : f ∈ t.fields) (src : μ)
  | varint (tag : UInt32) (unknown : tag ∉ t.fields.map Field.tag) (number : 8 ≤ tag.toNat)
      (type : tag.toNat % 8 = 0) (v : UInt64)
  | delimited (tag : UInt32) (unknown : tag ∉ t.fields.map Field.tag) (number : 8 ≤ tag.toNat)
      (type : tag.toNat % 8 = 2) (value : List UInt8) (size : value.length ≤ sizeLimit)
  | fixed (tag : UInt32) (unknown : tag ∉ t.fields.map Field.tag) (number : 8 ≤ tag.toNat)
      (value : List UInt8) (size : fixedLength tag = some value.length)

namespace Piece

variable {t : MessageType w μ}

def bytes : t.Piece → List UInt8
  | .field f _ src => f.serialize src
  | .varint tag _ _ _ v => w.varint tag.toUInt64 ++ w.varint v
  | .delimited tag _ _ _ value _ =>
      w.varint tag.toUInt64 ++ (w.varint (UInt64.ofNat value.length) ++ value)
  | .fixed tag _ _ value _ => w.varint tag.toUInt64 ++ value

def effect : t.Piece → μ → μ
  | .field f _ src => f.merge src
  | .varint .. => id
  | .delimited .. => id
  | .fixed .. => id

/-- The field and the message that it is from, if the class knows it. -/
def source : t.Piece → Option (Field w μ × μ)
  | .field f _ src => some (f, src)
  | .varint .. => none
  | .delimited .. => none
  | .fixed .. => none

theorem foldl_effect (pieces : List t.Piece) (m : μ) :
    pieces.foldl (fun m piece => piece.effect m) m =
      (pieces.filterMap source).foldl (fun m known => known.1.merge known.2 m) m := by
  induction pieces generalizing m with
  | nil => rfl
  | cons piece pieces ih =>
      rw [List.foldl_cons, ih]
      cases piece <;> rfl

theorem absorbs (piece : t.Piece) : t.Absorbs piece.bytes piece.effect := by
  cases piece with
  | field f known src => exact Absorbs.field known src
  | varint tag unknown number type v => exact Absorbs.unknown_varint unknown number type v
  | delimited tag unknown number type value size =>
      exact Absorbs.unknown_delimited unknown number type size
  | fixed tag unknown number value size => exact Absorbs.unknown_fixed unknown number size

end Piece

/-- Pieces in any order, as often as they come. -/
theorem parseFromArray_pieces (t : MessageType w μ) (pieces : List t.Piece) :
    t.parseFromArray (pieces.flatMap Piece.bytes) =
      (true, pieces.foldl (fun m piece => piece.effect m) t.default) := by
  have hread := Absorbs.flatMap (fun piece (_ : piece ∈ pieces) => piece.absorbs) [] t.default
  rwa [List.append_nil, internalParse_nil] at hread

theorem merge_comm_of_mem {t : MessageType w μ} {f g : Field w μ} (hf : f ∈ t.fields)
    (hg : g ∈ t.fields) (src dst : μ) :
    f.merge src (g.merge src dst) = g.merge src (f.merge src dst) := by
  have hcomm : t.fields.Pairwise fun f g => ∀ dst,
      f.merge src (g.merge src dst) = g.merge src (f.merge src dst) :=
    t.merge_comm.imp fun h dst => h src src dst
  exact hcomm.forall_of_forall_of_flip (fun _ _ _ => rfl)
    (hcomm.imp fun h dst => (h dst).symm) hf hg dst

/-- The fields of a message may come in any order, with others between them. -/
theorem parseFromArray_any_order {t : MessageType w μ} {src : μ} {pieces : List t.Piece}
    (h : (pieces.filterMap Piece.source).Perm (t.fields.map fun f => (f, src))) :
    t.parseFromArray (pieces.flatMap Piece.bytes) = (true, src) := by
  have hcomm : ∀ x ∈ t.fields.map fun f => (f, src), ∀ y ∈ t.fields.map fun f => (f, src),
      ∀ m, y.1.merge y.2 (x.1.merge x.2 m) = x.1.merge x.2 (y.1.merge y.2 m) := by
    intro x hx y hy m
    rcases List.mem_map.1 hx with ⟨f, hf, rfl⟩
    rcases List.mem_map.1 hy with ⟨g, hg, rfl⟩
    exact merge_comm_of_mem hg hf src m
  rw [parseFromArray_pieces, Piece.foldl_effect, ← h.symm.foldl_eq' hcomm, List.foldl_map,
    t.merge_default]

/-- To read what was written is to merge. -/
theorem parse_serialize (t : MessageType w μ) (src dst : μ) :
    t.internalParse (t.internalSerialize src) dst = (true, t.mergeFrom src dst) := by
  have hread := Absorbs.serialize t src [] dst
  rwa [List.append_nil, internalParse_nil] at hread

theorem parseFromArray_serialize (t : MessageType w μ) (m : μ) :
    t.parseFromArray (t.internalSerialize m) = (true, m) := by
  rw [parseFromArray, parse_serialize, mergeFrom, t.merge_default]

/-- Nothing at all is read as the default. -/
theorem serialize_ne_nil (t : MessageType w μ) {m : μ} (h : m ≠ t.default) :
    t.internalSerialize m ≠ [] := by
  intro hnil
  have hread := t.parseFromArray_serialize m
  rw [hnil, parseFromArray, internalParse_nil] at hread
  exact h (congrArg Prod.snd hread).symm

/-- The length is known before anything is written. -/
theorem byteSizeLong_eq (t : MessageType w μ) (m : μ) :
    t.byteSizeLong m = (t.internalSerialize m).length := by
  unfold byteSizeLong internalSerialize
  rw [List.length_flatMap]
  exact congrArg List.sum (List.map_congr_left fun f _ => f.byteSize_eq m)

/-- A message is no longer than its fields can get. -/
theorem byteSizeLong_le {t : MessageType w μ} {m : μ} (bounds : List Nat)
    (h : List.Forall₂ (fun f bound => f.byteSize m ≤ bound) t.fields bounds) :
    t.byteSizeLong m ≤ bounds.sum := by
  unfold byteSizeLong
  generalize t.fields = fields at h
  induction h with
  | nil => exact Nat.le_refl 0
  | cons hfield _ ih => simpa only [List.map_cons, List.sum_cons] using Nat.add_le_add hfield ih

end MessageType

/-! ## Kinds of fields -/

section Kinds

variable (w : Wire) {μ ν α : Type}

/-- A field that is written as a number; its default is `zero`. -/
def scalarField [DecidableEq α] (zero : α) (toWire : α → UInt64) (ofWire : UInt64 → α)
    (hwire : ∀ a, ofWire (toWire a) = a) (tag : UInt32) (htag : tag.toNat < 128)
    (get : μ → α) (set : α → μ → μ) : Field w μ where
  tag := tag
  repeated := false
  parse bs m :=
    match w.readVarint bs with
    | none => (none, m)
    | some (v, rest) => (some rest, set (ofWire v) m)
  serialize m := if get m = zero then [] else record tag (w.varint (toWire (get m)))
  byteSize m := if get m = zero then 0 else 1 + w.varintSize (toWire (get m))
  merge src dst := if get src = zero then dst else set (get src) dst
  tag_small := htag
  parse_le := by
    intro bs m rest h
    cases hread : w.readVarint bs with
    | none => simp [hread] at h
    | some read =>
        rcases read with ⟨v, rest'⟩
        simp only [hread, Option.some.injEq] at h
        subst h
        exact Nat.le_of_lt (w.readVarint_lt hread)
  byteSize_eq := by
    intro m
    split_ifs
    · rfl
    · rw [w.varintSize_eq, length_record]
  reads_back := by
    intro src
    by_cases hzero : get src = zero
    · exact ⟨[], by simp [hzero], by simp, by simp [hzero]⟩
    · refine ⟨[(w.varint (toWire (get src)), set (get src))], by simp [hzero], ?_, by simp [hzero]⟩
      intro value hvalue rest dst
      rw [List.mem_singleton.1 hvalue]
      simp only [w.readVarint_varint, hwire]

/-- Merging into a message that has the default in the field. -/
theorem scalarField_merge_zero [DecidableEq α] {w : Wire} {zero : α} {toWire : α → UInt64}
    {ofWire : UInt64 → α} {hwire : ∀ a, ofWire (toWire a) = a} {tag : UInt32}
    {htag : tag.toNat < 128} {get : μ → α} {set : α → μ → μ} {src dst : μ}
    (h : set zero dst = dst) :
    (scalarField w zero toWire ofWire hwire tag htag get set).merge src dst =
      set (get src) dst := by
  simp only [scalarField]
  split_ifs with hzero
  · rw [hzero, h]
  · rfl

theorem int32_of_wire (a : Int32) : a.toInt64.toUInt64.toUInt32.toInt32 = a := by
  rw [← Int32.toBitVec_inj]
  have hcut : (a.toBitVec.signExtend 64).signExtend 32 = a.toBitVec :=
    congrArg Int32.toBitVec (Int32.toInt32_toInt64 a)
  rw [BitVec.signExtend_eq_setWidth_of_le _ (by decide)] at hcut
  simpa using hcut

/-- `int32`: the number is extended to 64 bits with its sign, and cut again. -/
def int32Field (tag : UInt32) (htag : tag.toNat < 128) (get : μ → Int32)
    (set : Int32 → μ → μ) : Field w μ :=
  scalarField w 0 (fun a => a.toInt64.toUInt64) (fun v => v.toUInt32.toInt32) int32_of_wire tag htag
    get set

theorem int32Field_merge_zero {w : Wire} {tag : UInt32} {htag : tag.toNat < 128} {get : μ → Int32}
    {set : Int32 → μ → μ} {src dst : μ} (h : set 0 dst = dst) :
    (int32Field w tag htag get set).merge src dst = set (get src) dst :=
  scalarField_merge_zero h

/-- `uint32`. -/
def uint32Field (tag : UInt32) (htag : tag.toNat < 128) (get : μ → UInt32)
    (set : UInt32 → μ → μ) : Field w μ :=
  scalarField w 0 UInt32.toUInt64 UInt64.toUInt32 UInt32.toUInt32_toUInt64 tag htag get set

theorem uint32Field_merge_zero {w : Wire} {tag : UInt32} {htag : tag.toNat < 128}
    {get : μ → UInt32} {set : UInt32 → μ → μ} {src dst : μ} (h : set 0 dst = dst) :
    (uint32Field w tag htag get set).merge src dst = set (get src) dst :=
  scalarField_merge_zero h

/-- `bool`, whose size is a constant. -/
def boolField (tag : UInt32) (htag : tag.toNat < 128) (get : μ → Bool)
    (set : Bool → μ → μ) : Field w μ :=
  { scalarField w false (fun a => if a then 1 else 0) (fun v => decide (v ≠ 0))
      (fun a => by cases a <;> rfl) tag htag get set with
    byteSize := fun m => if get m = false then 0 else 1 + 1
    byteSize_eq := by
      intro m
      cases hget : get m with
      | false => simp [scalarField, hget]
      | true => simp [scalarField, hget, record, w.varint_small 1 (by decide)] }

theorem boolField_merge_zero {w : Wire} {tag : UInt32} {htag : tag.toNat < 128} {get : μ → Bool}
    {set : Bool → μ → μ} {src dst : μ} (h : set false dst = dst) :
    (boolField w tag htag get set).merge src dst = set (get src) dst := by
  simp only [boolField, scalarField]
  split_ifs with hfalse
  · rw [hfalse, h]
  · rfl

variable {w}

/-- `ParseMessage`: the length, and the message in as many bytes. -/
def parseMessage (sub : MessageType w ν) (bs : List UInt8) (m : ν) : Option (List UInt8) × ν :=
  match w.readSize bs with
  | none => (none, m)
  | some (n, rest) =>
      let (ok, m) := sub.internalParse (rest.take n) m
      (if ok ∧ n ≤ rest.length then some (rest.drop n) else none, m)

theorem parseMessage_le {sub : MessageType w ν} {bs rest : List UInt8} {m : ν}
    (h : (parseMessage sub bs m).1 = some rest) : rest.length ≤ bs.length := by
  unfold parseMessage at h
  split at h
  · cases h
  · next n rest' hread =>
      have hlt := w.readSize_lt hread
      simp only at h
      split_ifs at h
      cases h
      rw [List.length_drop]
      omega

/-- A message with its length in front. -/
def delimited (sub : MessageType w ν) (m : ν) : List UInt8 :=
  w.varint (UInt64.ofNat (sub.byteSizeLong m)) ++ sub.internalSerialize m

theorem parseMessage_delimited (sub : MessageType w ν) {src : ν}
    (hsize : sub.byteSizeLong src ≤ sizeLimit) (rest : List UInt8) (dst : ν) :
    parseMessage sub (delimited sub src ++ rest) dst = (some rest, sub.mergeFrom src dst) := by
  have hlen := sub.byteSizeLong_eq src
  unfold parseMessage delimited
  rw [List.append_assoc, w.readSize_varint _ _ hsize]
  simp only [hlen, List.take_left, List.drop_left, sub.parse_serialize, List.length_append,
    Nat.le_add_right, and_self, if_true]

/-- The size of a message with its length in front. -/
def messageSize (sub : MessageType w ν) (m : ν) : Nat :=
  w.varintSize (UInt64.ofNat (sub.byteSizeLong m)) + sub.byteSizeLong m

theorem messageSize_eq (sub : MessageType w ν) (m : ν) :
    messageSize sub m = (delimited sub m).length := by
  rw [messageSize, delimited, List.length_append, w.varintSize_eq, ← sub.byteSizeLong_eq]

/-- A field that holds a message or nothing. -/
def messageField (sub : MessageType w ν) (hsize : ∀ m, sub.byteSizeLong m ≤ sizeLimit)
    (tag : UInt32) (htag : tag.toNat < 128) (get : μ → Option ν) (set : ν → μ → μ) :
    Field w μ where
  tag := tag
  repeated := false
  parse bs m :=
    let (rest, value) := parseMessage sub bs ((get m).getD sub.default)
    (rest, set value m)
  serialize m :=
    match get m with
    | none => []
    | some value => record tag (delimited sub value)
  byteSize m :=
    match get m with
    | none => 0
    | some value => 1 + messageSize sub value
  merge src dst :=
    match get src with
    | none => dst
    | some value => set (sub.mergeFrom value ((get dst).getD sub.default)) dst
  tag_small := htag
  parse_le := fun _ _ _ h => parseMessage_le h
  byteSize_eq := by
    intro m
    cases get m with
    | none => rfl
    | some value =>
        simp only
        rw [messageSize_eq, length_record]
  reads_back := by
    intro src
    cases hsrc : get src with
    | none => exact ⟨[], rfl, by simp, fun _ => rfl⟩
    | some value =>
        refine ⟨[(delimited sub value,
          fun dst => set (sub.mergeFrom value ((get dst).getD sub.default)) dst)],
          by simp, ?_, fun _ => rfl⟩
        intro v hv rest dst
        rw [List.mem_singleton.1 hv]
        simp only [parseMessage_delimited sub (hsize value)]

/-- Merging into a message that has nothing in the field. -/
theorem messageField_merge_none {sub : MessageType w ν}
    {hsize : ∀ m, sub.byteSizeLong m ≤ sizeLimit} {tag : UInt32} {htag : tag.toNat < 128}
    {get : μ → Option ν} {set : ν → μ → μ} {src dst : μ} (h : get dst = none) :
    (messageField sub hsize tag htag get set).merge src dst =
      match get src with
      | none => dst
      | some value => set value dst := by
  simp only [messageField, h, Option.getD_none, MessageType.mergeFrom, sub.merge_default]

/-- A field that holds messages; each record adds one to them. -/
def repeatedField (sub : MessageType w ν) (hsize : ∀ m, sub.byteSizeLong m ≤ sizeLimit)
    (tag : UInt32) (htag : tag.toNat < 128) (get : μ → List ν) (set : List ν → μ → μ)
    (hset : ∀ m a b, set b (set a m) = set b m) (hget : ∀ m a, get (set a m) = a)
    (hsame : ∀ m, set (get m) m = m) : Field w μ where
  tag := tag
  repeated := true
  parse bs m :=
    let (rest, value) := parseMessage sub bs sub.default
    (rest, set (get m ++ [value]) m)
  serialize m := (get m).flatMap fun value => record tag (delimited sub value)
  byteSize m := (get m).length + ((get m).map (messageSize sub)).sum
  merge src dst := set (get dst ++ get src) dst
  tag_small := htag
  parse_le := fun _ _ _ h => parseMessage_le h
  byteSize_eq := by
    intro m
    generalize get m = values
    induction values with
    | nil => rfl
    | cons value values ih =>
        rw [List.flatMap_cons, List.length_append, ← ih, length_record, ← messageSize_eq,
          List.map_cons, List.sum_cons, List.length_cons]
        omega
  reads_back := by
    intro src
    refine ⟨(get src).map fun value =>
      (delimited sub value, fun dst => set (get dst ++ [value]) dst), ?_, ?_, ?_⟩
    · rw [List.flatMap_map]
    · intro v hv rest dst
      rcases List.mem_map.1 hv with ⟨value, _, rfl⟩
      simp only [parseMessage_delimited sub (hsize value)]
      -- an element starts as the default instance
      rw [MessageType.mergeFrom, sub.merge_default]
    · intro dst
      rw [List.foldl_map]
      generalize get src = values
      induction values generalizing dst with
      | nil => simp [hsame]
      | cons value values ih =>
          rw [List.foldl_cons, ih, hget, hset, List.append_assoc, List.singleton_append]

end Kinds

/-! ## A runtime -/

/-- The length of delimited bytes. -/
def readSize128 (bs : List UInt8) : Option (Nat × List UInt8) :=
  (Varint.decode 5 bs).filter fun (n, _) => n ≤ sizeLimit

theorem readSize128_encode {n : Nat} (h : n ≤ sizeLimit) (rest : List UInt8) :
    readSize128 (Varint.encode 10 (UInt64.ofNat n).toNat ++ rest) = some (n, rest) := by
  have hval : (UInt64.ofNat n).toNat = n := by
    simp only [sizeLimit] at h
    rw [UInt64.toNat_ofNat']
    omega
  have hlt : n < 128 ^ 5 := by
    simp only [sizeLimit] at h
    omega
  unfold readSize128
  rw [hval, Varint.encode_limit (by decide) (by decide) hlt, Varint.decode_encode (by decide) hlt]
  simp [h]

theorem readSize128_lt {bs rest : List UInt8} {n : Nat} (h : readSize128 bs = some (n, rest)) :
    rest.length < bs.length :=
  Varint.length_decode_lt (Option.filter_eq_some_iff.1 h).1

/-- What lies behind the value of a field: a number, eight bytes, delimited bytes, or four bytes.
Groups are not read. -/
def skip128 (tag : UInt32) (bs : List UInt8) : Option (List UInt8) :=
  if tag.toNat < 8 then none
  else if tag.toNat % 8 = 0 then (Varint.decode 10 bs).map Prod.snd
  else if tag.toNat % 8 = 1 ∧ 8 ≤ bs.length then some (bs.drop 8)
  else if tag.toNat % 8 = 2 then
    ((readSize128 bs).filter fun (n, rest) => n ≤ rest.length).map fun (n, rest) => rest.drop n
  else if tag.toNat % 8 = 5 ∧ 4 ≤ bs.length then some (bs.drop 4)
  else none

theorem skip128_le {tag : UInt32} {bs rest : List UInt8} (h : skip128 tag bs = some rest) :
    rest.length ≤ bs.length := by
  unfold skip128 at h
  split_ifs at h
  · rcases Option.map_eq_some_iff.1 h with ⟨⟨n, rest'⟩, hread, rfl⟩
    exact Nat.le_of_lt (Varint.length_decode_lt hread)
  · cases h
    simp
  · rcases Option.map_eq_some_iff.1 h with ⟨⟨n, rest'⟩, hread, rfl⟩
    have hlt := readSize128_lt (Option.filter_eq_some_iff.1 hread).1
    rw [List.length_drop]
    omega
  · cases h
    simp

theorem decode_uint64 (v : UInt64) (rest : List UInt8) :
    Varint.decode 10 (Varint.encode 10 v.toNat ++ rest) = some (v.toNat, rest) :=
  Varint.decode_encode (by decide) (Nat.lt_of_lt_of_le v.toNat_lt (by decide)) rest

/-- Numbers of seven bits a byte. -/
def Wire.base128 : Wire where
  varint v := Varint.encode 10 v.toNat
  varintSize v := (Varint.encode 10 v.toNat).length
  readVarint bs := (Varint.decode 10 bs).map fun (n, rest) => (UInt64.ofNat n, rest)
  readTag bs := (Varint.decode 5 bs).map fun (n, rest) => (UInt32.ofNat n, rest)
  readSize := readSize128
  skip := skip128
  varintSize_eq _ := rfl
  varint_small v h := Varint.encode_small 9 h
  length_varint_le v bytes hpos h := Varint.length_encode_le hpos h
  readVarint_varint v rest := by
    rw [decode_uint64]
    simp
  readTag_varint tag rest := by
    have hlt : tag.toUInt64.toNat < 128 ^ 5 := by
      have := tag.toNat_lt
      simp
      omega
    rw [Varint.encode_limit (by decide) (by decide) hlt, Varint.decode_encode (by decide) hlt]
    simp
  readSize_varint _ rest h := readSize128_encode h rest
  readVarint_lt h := by
    rcases Option.map_eq_some_iff.1 h with ⟨⟨n, rest⟩, hread, heq⟩
    cases heq
    exact Varint.length_decode_lt hread
  readTag_lt h := by
    rcases Option.map_eq_some_iff.1 h with ⟨⟨n, rest⟩, hread, heq⟩
    cases heq
    exact Varint.length_decode_lt hread
  readSize_lt := readSize128_lt
  skip_le := skip128_le
  skip_varint tag v rest hnumber htype := by
    unfold skip128
    rw [if_neg (by omega), if_pos htype, decode_uint64]
    rfl
  skip_delimited tag value rest hnumber htype hsize := by
    unfold skip128
    rw [if_neg (by omega), if_neg (by omega), if_neg (by omega), if_pos htype,
      readSize128_encode hsize]
    simp
  skip_fixed tag value rest hnumber hsize := by
    unfold fixedLength at hsize
    unfold skip128
    -- the tag has a field number
    rw [if_neg (by omega)]
    split_ifs at hsize with height hfour
    · have hlen : value.length = 8 := (Option.some.inj hsize).symm
      have hlong : 8 ≤ (value ++ rest).length := by simp [hlen]
      rw [if_neg (by omega), if_pos ⟨height, hlong⟩, ← hlen, List.drop_left]
    · have hlen : value.length = 4 := (Option.some.inj hsize).symm
      have hlong : 4 ≤ (value ++ rest).length := by simp [hlen]
      rw [if_neg (by omega), if_neg (by omega), if_neg (by omega), if_pos ⟨hfour, hlong⟩, ← hlen,
        List.drop_left]

end Lib
end Rins
