import Rins.Base.Proto
import Rins.Lib.Wire

/-!
# Messages — the generated classes of `rins.pb.cc`

What `protoc` has generated for the messages of `rins.proto`: for each class the fields with their
tags, as `_InternalSerialize`, `ByteSizeLong`, `MergeImpl` and `_InternalParse` go through them.
The methods are those of `MessageType`, over a runtime library `w`.  Fields that are not known are
passed over and not kept: no program here serializes a message that it has parsed.
-/

namespace Rins
namespace Proto

open Lib

variable (w : Wire)

/-! ## The classes -/

/-- `HostInfo`. -/
def hostInfo : MessageType w HostInfo where
  default := { ip := 0, port := 0 }
  fields :=
    [int32Field w 8 (by decide) HostInfo.ip fun ip m => { m with ip := ip },
      int32Field w 16 (by decide) HostInfo.port fun port m => { m with port := port }]
  tags_nodup := show ([8, 16] : List UInt32).Nodup by decide
  merge_default := by
    intro src
    rw [List.foldl_cons, int32Field_merge_zero, List.foldl_cons, int32Field_merge_zero,
      List.foldl_nil]
    all_goals rfl
  merge_comm := by
    simp only [List.pairwise_cons, List.forall_mem_cons, List.not_mem_nil, int32Field, scalarField,
      List.Pairwise.nil, false_imp_iff, implies_true, and_true]
    intro a b dst
    split_ifs <;> rfl

/-- `GetRouteRequest`. -/
def getRouteRequest : MessageType w GetRouteRequest where
  default := { modid := 0, cmdid := 0 }
  fields :=
    [int32Field w 8 (by decide) GetRouteRequest.modid fun modid m => { m with modid := modid },
      int32Field w 16 (by decide) GetRouteRequest.cmdid fun cmdid m => { m with cmdid := cmdid }]
  tags_nodup := show ([8, 16] : List UInt32).Nodup by decide
  merge_default := by
    intro src
    rw [List.foldl_cons, int32Field_merge_zero, List.foldl_cons, int32Field_merge_zero,
      List.foldl_nil]
    all_goals rfl
  merge_comm := by
    simp only [List.pairwise_cons, List.forall_mem_cons, List.not_mem_nil, int32Field, scalarField,
      List.Pairwise.nil, false_imp_iff, implies_true, and_true]
    intro a b dst
    split_ifs <;> rfl

/-- `HostCallResult`. -/
def hostCallResult : MessageType w HostCallResult where
  default := { ip := 0, port := 0, succ := 0, err := 0, overload := false }
  fields :=
    [int32Field w 8 (by decide) HostCallResult.ip fun ip m => { m with ip := ip },
      int32Field w 16 (by decide) HostCallResult.port fun port m => { m with port := port },
      uint32Field w 24 (by decide) HostCallResult.succ fun succ m => { m with succ := succ },
      uint32Field w 32 (by decide) HostCallResult.err fun err m => { m with err := err },
      boolField w 40 (by decide) HostCallResult.overload fun overload m =>
        { m with overload := overload }]
  tags_nodup := show ([8, 16, 24, 32, 40] : List UInt32).Nodup by decide
  merge_default := by
    intro src
    rw [List.foldl_cons, int32Field_merge_zero, List.foldl_cons, int32Field_merge_zero,
      List.foldl_cons, uint32Field_merge_zero, List.foldl_cons, uint32Field_merge_zero,
      List.foldl_cons, boolField_merge_zero, List.foldl_nil]
    all_goals rfl
  merge_comm := by
    simp only [List.pairwise_cons, List.forall_mem_cons, List.not_mem_nil, int32Field, uint32Field,
      boolField, scalarField, List.Pairwise.nil, false_imp_iff, implies_true, and_true]
    refine ⟨⟨?_, ?_, ?_, ?_⟩, ⟨?_, ?_, ?_⟩, ⟨?_, ?_⟩, ?_⟩ <;> intro a b dst <;> split_ifs <;> rfl

/-- `GetHostRequest`. -/
def getHostRequest : MessageType w GetHostRequest where
  default := { seq := 0, modid := 0, cmdid := 0 }
  fields :=
    [uint32Field w 8 (by decide) GetHostRequest.seq fun seq m => { m with seq := seq },
      int32Field w 16 (by decide) GetHostRequest.modid fun modid m => { m with modid := modid },
      int32Field w 24 (by decide) GetHostRequest.cmdid fun cmdid m => { m with cmdid := cmdid }]
  tags_nodup := show ([8, 16, 24] : List UInt32).Nodup by decide
  merge_default := by
    intro src
    rw [List.foldl_cons, uint32Field_merge_zero, List.foldl_cons, int32Field_merge_zero,
      List.foldl_cons, int32Field_merge_zero, List.foldl_nil]
    all_goals rfl
  merge_comm := by
    simp only [List.pairwise_cons, List.forall_mem_cons, List.not_mem_nil, int32Field, uint32Field,
      scalarField, List.Pairwise.nil,
      false_imp_iff, implies_true, and_true]
    refine ⟨⟨?_, ?_⟩, ?_⟩ <;> intro a b dst <;> split_ifs <;> rfl

/-! ## How long a message can get -/

theorem int32Field_byteSize_le {μ : Type} (tag : UInt32) (htag : tag.toNat < 128) (get : μ → Int32)
    (set : Int32 → μ → μ) (m : μ) : (int32Field w tag htag get set).byteSize m ≤ 11 := by
  simp only [int32Field, scalarField]
  split_ifs
  · omega
  · have hten := w.length_varint_le (get m).toInt64.toUInt64 10 (by decide)
      (Nat.lt_of_lt_of_le (UInt64.toNat_lt _) (by decide))
    rw [w.varintSize_eq]
    omega

theorem uint32Field_byteSize_le {μ : Type} (tag : UInt32) (htag : tag.toNat < 128)
    (get : μ → UInt32) (set : UInt32 → μ → μ) (m : μ) :
    (uint32Field w tag htag get set).byteSize m ≤ 6 := by
  simp only [uint32Field, scalarField]
  split_ifs
  · omega
  · have hfive := w.length_varint_le (get m).toUInt64 5 (by decide)
      (Nat.lt_of_lt_of_le ((get m).toUInt64_toNat ▸ (get m).toNat_lt) (by decide))
    rw [w.varintSize_eq]
    omega

theorem boolField_byteSize_le {μ : Type} (tag : UInt32) (htag : tag.toNat < 128) (get : μ → Bool)
    (set : Bool → μ → μ) (m : μ) : (boolField w tag htag get set).byteSize m ≤ 2 := by
  simp only [boolField]
  split_ifs <;> omega

theorem hostInfo_byteSizeLong_le (m : HostInfo) : (hostInfo w).byteSizeLong m ≤ 22 :=
  MessageType.byteSizeLong_le [11, 11]
    (.cons (int32Field_byteSize_le ..) (.cons (int32Field_byteSize_le ..) .nil))

theorem getRouteRequest_byteSizeLong_le (m : GetRouteRequest) :
    (getRouteRequest w).byteSizeLong m ≤ 22 :=
  MessageType.byteSizeLong_le [11, 11]
    (.cons (int32Field_byteSize_le ..) (.cons (int32Field_byteSize_le ..) .nil))

theorem hostCallResult_byteSizeLong_le (m : HostCallResult) :
    (hostCallResult w).byteSizeLong m ≤ 36 :=
  MessageType.byteSizeLong_le [11, 11, 6, 6, 2]
    (.cons (int32Field_byteSize_le ..) (.cons (int32Field_byteSize_le ..)
      (.cons (uint32Field_byteSize_le ..) (.cons (uint32Field_byteSize_le ..)
        (.cons (boolField_byteSize_le ..) .nil)))))

theorem getHostRequest_byteSizeLong_le (m : GetHostRequest) :
    (getHostRequest w).byteSizeLong m ≤ 28 :=
  MessageType.byteSizeLong_le [6, 11, 11]
    (.cons (uint32Field_byteSize_le ..) (.cons (int32Field_byteSize_le ..)
      (.cons (int32Field_byteSize_le ..) .nil)))

/-! ## Classes with messages inside -/

theorem hostInfo_size (m : HostInfo) : (hostInfo w).byteSizeLong m ≤ sizeLimit :=
  Nat.le_trans (hostInfo_byteSizeLong_le w m) (by decide)

theorem hostCallResult_size (m : HostCallResult) : (hostCallResult w).byteSizeLong m ≤ sizeLimit :=
  Nat.le_trans (hostCallResult_byteSizeLong_le w m) (by decide)

/-- `GetRouteResponse`. -/
def getRouteResponse : MessageType w GetRouteResponse where
  default := { modid := 0, cmdid := 0, host := [] }
  fields :=
    [int32Field w 8 (by decide) GetRouteResponse.modid fun modid m => { m with modid := modid },
      int32Field w 16 (by decide) GetRouteResponse.cmdid fun cmdid m => { m with cmdid := cmdid },
      repeatedField (hostInfo w) (hostInfo_size w) 26 (by decide) GetRouteResponse.host
        (fun host m => { m with host := host }) (fun _ _ _ => rfl) (fun _ _ => rfl) fun _ => rfl]
  tags_nodup := show ([8, 16, 26] : List UInt32).Nodup by decide
  merge_default := by
    intro src
    rw [List.foldl_cons, int32Field_merge_zero, List.foldl_cons, int32Field_merge_zero,
      List.foldl_cons,
      List.foldl_nil]
    all_goals rfl
  merge_comm := by
    simp only [List.pairwise_cons, List.forall_mem_cons, List.not_mem_nil, int32Field, scalarField,
      repeatedField, List.Pairwise.nil,
      false_imp_iff, implies_true, and_true]
    refine ⟨⟨?_, ?_⟩, ?_⟩ <;> intro a b dst <;> split_ifs <;> rfl

/-- `GetHostResponse`. -/
def getHostResponse : MessageType w GetHostResponse where
  default := { seq := 0, modid := 0, cmdid := 0, retcode := 0, host := none }
  fields :=
    [uint32Field w 8 (by decide) GetHostResponse.seq fun seq m => { m with seq := seq },
      int32Field w 16 (by decide) GetHostResponse.modid fun modid m => { m with modid := modid },
      int32Field w 24 (by decide) GetHostResponse.cmdid fun cmdid m => { m with cmdid := cmdid },
      int32Field w 32 (by decide) GetHostResponse.retcode fun retcode m =>
        { m with retcode := retcode },
      messageField (hostInfo w) (hostInfo_size w) 42 (by decide) GetHostResponse.host
        fun host m => { m with host := some host }]
  tags_nodup := show ([8, 16, 24, 32, 42] : List UInt32).Nodup by decide
  merge_default := by
    rintro ⟨seq, modid, cmdid, retcode, host⟩
    rw [List.foldl_cons, uint32Field_merge_zero, List.foldl_cons, int32Field_merge_zero,
      List.foldl_cons, int32Field_merge_zero, List.foldl_cons, int32Field_merge_zero,
      List.foldl_cons, List.foldl_nil, messageField_merge_none]
    · cases host <;> rfl
    all_goals rfl
  merge_comm := by
    simp only [List.pairwise_cons, List.forall_mem_cons, List.not_mem_nil, int32Field, uint32Field,
      scalarField, messageField, List.Pairwise.nil,
      false_imp_iff, implies_true, and_true]
    refine ⟨⟨?_, ?_, ?_, ?_⟩, ⟨?_, ?_, ?_⟩, ⟨?_, ?_⟩, ?_⟩ <;> intro a b dst <;> split_ifs <;>
      (try cases b.host) <;> rfl

/-- `ReportStatusRequest`. -/
def reportStatusRequest : MessageType w ReportStatusRequest where
  default := { modid := 0, cmdid := 0, caller := 0, results := [], timestamp := 0 }
  fields :=
    [int32Field w 8 (by decide) ReportStatusRequest.modid fun modid m => { m with modid := modid },
      int32Field w 16 (by decide) ReportStatusRequest.cmdid fun cmdid m =>
        { m with cmdid := cmdid },
      int32Field w 24 (by decide) ReportStatusRequest.caller fun caller m =>
        { m with caller := caller },
      repeatedField (hostCallResult w) (hostCallResult_size w) 34 (by decide)
        ReportStatusRequest.results (fun results m => { m with results := results })
        (fun _ _ _ => rfl) (fun _ _ => rfl) fun _ => rfl,
      uint32Field w 40 (by decide) ReportStatusRequest.timestamp fun timestamp m =>
        { m with timestamp := timestamp }]
  tags_nodup := show ([8, 16, 24, 34, 40] : List UInt32).Nodup by decide
  merge_default := by
    intro src
    rw [List.foldl_cons, int32Field_merge_zero, List.foldl_cons, int32Field_merge_zero,
      List.foldl_cons, int32Field_merge_zero, List.foldl_cons, List.foldl_cons,
      uint32Field_merge_zero, List.foldl_nil]
    all_goals rfl
  merge_comm := by
    simp only [List.pairwise_cons, List.forall_mem_cons, List.not_mem_nil, int32Field, uint32Field,
      scalarField, repeatedField, List.Pairwise.nil,
      false_imp_iff, implies_true, and_true]
    refine ⟨⟨?_, ?_, ?_, ?_⟩, ⟨?_, ?_, ?_⟩, ⟨?_, ?_⟩, ?_⟩ <;> intro a b dst <;> split_ifs <;> rfl

/-- A message of less than 128 bytes has its length in one byte. -/
theorem messageSize_le {w : Wire} {ν : Type} {sub : MessageType w ν} {m : ν} {bound : Nat}
    (hbound : bound < 128) (h : sub.byteSizeLong m ≤ bound) : messageSize sub m ≤ 1 + bound := by
  have hone := w.length_varint_le (UInt64.ofNat (sub.byteSizeLong m)) 1 (by decide) (by
    rw [UInt64.toNat_ofNat']
    omega)
  rw [messageSize, w.varintSize_eq]
  omega

theorem messageField_byteSize_le {w : Wire} {μ ν : Type} {sub : MessageType w ν} {bound : Nat}
    (hbound : bound < 128) (h : ∀ m, sub.byteSizeLong m ≤ bound)
    (hsize : ∀ m, sub.byteSizeLong m ≤ sizeLimit) (tag : UInt32) (htag : tag.toNat < 128)
    (get : μ → Option ν) (set : ν → μ → μ) (m : μ) :
    (messageField sub hsize tag htag get set).byteSize m ≤ 2 + bound := by
  simp only [messageField]
  split
  · omega
  · next value _ =>
      have hmessage := messageSize_le hbound (h value)
      omega

theorem repeatedField_byteSize_le {w : Wire} {μ ν : Type} {sub : MessageType w ν} {bound : Nat}
    (hbound : bound < 128) (h : ∀ m, sub.byteSizeLong m ≤ bound)
    (hsize : ∀ m, sub.byteSizeLong m ≤ sizeLimit) (tag : UInt32) (htag : tag.toNat < 128)
    (get : μ → List ν) (set : List ν → μ → μ) (hset : ∀ m a b, set b (set a m) = set b m)
    (hget : ∀ m a, get (set a m) = a) (hsame : ∀ m, set (get m) m = m) (m : μ) :
    (repeatedField sub hsize tag htag get set hset hget hsame).byteSize m ≤
      (get m).length * (2 + bound) := by
  simp only [repeatedField]
  generalize get m = values
  induction values with
  | nil => simp
  | cons value values ih =>
      have hmessage := messageSize_le hbound (h value)
      rw [List.length_cons, List.map_cons, List.sum_cons, Nat.succ_mul]
      omega

theorem getHostResponse_byteSizeLong_le (m : GetHostResponse) :
    (getHostResponse w).byteSizeLong m ≤ 63 :=
  MessageType.byteSizeLong_le [6, 11, 11, 11, 2 + 22]
    (.cons (uint32Field_byteSize_le ..) (.cons (int32Field_byteSize_le ..)
      (.cons (int32Field_byteSize_le ..) (.cons (int32Field_byteSize_le ..)
        (.cons (messageField_byteSize_le (by decide) (hostInfo_byteSizeLong_le w) ..) .nil)))))

theorem reportStatusRequest_byteSizeLong_le (m : ReportStatusRequest) :
    (reportStatusRequest w).byteSizeLong m ≤ 39 + m.results.length * 38 := by
  have hle := MessageType.byteSizeLong_le (t := reportStatusRequest w) (m := m)
    [11, 11, 11, m.results.length * (2 + 36), 6]
    (.cons (int32Field_byteSize_le ..) (.cons (int32Field_byteSize_le ..)
      (.cons (int32Field_byteSize_le ..)
        (.cons (repeatedField_byteSize_le (by decide) (hostCallResult_byteSizeLong_le w) ..)
          (.cons (uint32Field_byteSize_le ..) .nil)))))
  simp only [List.sum_cons, List.sum_nil] at hle
  omega

/-! ## All of them -/

/-- The classes of `rins.pb.cc`. -/
inductive MessageClass
  | hostInfo
  | getRouteRequest
  | getRouteResponse
  | hostCallResult
  | reportStatusRequest
  | getHostRequest
  | getHostResponse
  deriving DecidableEq, Repr

namespace MessageClass

/-- What an object of the class holds. -/
abbrev Msg : MessageClass → Type
  | .hostInfo => HostInfo
  | .getRouteRequest => GetRouteRequest
  | .getRouteResponse => GetRouteResponse
  | .hostCallResult => HostCallResult
  | .reportStatusRequest => ReportStatusRequest
  | .getHostRequest => GetHostRequest
  | .getHostResponse => GetHostResponse

def type : (c : MessageClass) → MessageType w c.Msg
  | .hostInfo => Proto.hostInfo w
  | .getRouteRequest => Proto.getRouteRequest w
  | .getRouteResponse => Proto.getRouteResponse w
  | .hostCallResult => Proto.hostCallResult w
  | .reportStatusRequest => Proto.reportStatusRequest w
  | .getHostRequest => Proto.getHostRequest w
  | .getHostResponse => Proto.getHostResponse w

end MessageClass

/-- Whatever the class and the message: `ParseFromArray` reads back what `SerializeToString` has
written, with as many bytes as `ByteSizeLong` has promised, and reading it into a message that is
not empty is merging. -/
theorem messages_round_trip (c : MessageClass) (src dst : c.Msg) :
    (c.type w).parseFromArray ((c.type w).internalSerialize src) = (true, src) ∧
      (c.type w).byteSizeLong src = ((c.type w).internalSerialize src).length ∧
      (c.type w).internalParse ((c.type w).internalSerialize src) dst =
        (true, (c.type w).mergeFrom src dst) :=
  ⟨(c.type w).parseFromArray_serialize src, (c.type w).byteSizeLong_eq src,
    (c.type w).parse_serialize src dst⟩

/-- The fields of a message may have been written in any order, and fields that the class does not
know may stand between them, as numbers, as delimited bytes, or as four or eight bytes: the message
that is read is the same. -/
theorem messages_any_order (c : MessageClass) (src : c.Msg) (pieces : List (c.type w).Piece)
    (h : (pieces.filterMap MessageType.Piece.source).Perm
      ((c.type w).fields.map fun f => (f, src))) :
    (c.type w).parseFromArray (pieces.flatMap MessageType.Piece.bytes) = (true, src) :=
  MessageType.parseFromArray_any_order h

/-- The field 2 first, then a number under the field number 10, then the field 1. -/
theorem getRouteRequest_any_order :
    (getRouteRequest Wire.base128).parseFromArray [16, 5, 80, 7, 8, 3] =
      (true, { modid := 3, cmdid := 5 }) := by
  let request : GetRouteRequest := { modid := 3, cmdid := 5 }
  let t := MessageClass.getRouteRequest.type Wire.base128
  let pieces : List t.Piece :=
    [.field _ (List.mem_cons_of_mem _ List.mem_cons_self) request,
      .varint 80 (show (80 : UInt32) ∉ ([8, 16] : List UInt32) by decide) (by decide) (by decide) 7,
      .field _ List.mem_cons_self request]
  exact messages_any_order Wire.base128 .getRouteRequest request pieces (List.Perm.swap _ _ _)

/-! ## What the programs use of them -/

/-- The messages between the agent and the DNS service. -/
def codec : Codec where
  serialize := (getRouteRequest w).internalSerialize
  parse bytes := ((getRouteResponse w).parseFromArray bytes).2
  serialize_length req := by
    rw [← MessageType.byteSizeLong_eq]
    exact getRouteRequest_byteSizeLong_le w req

/-- The messages between the API and the agent. -/
def hostCodec : HostCodec where
  serializeRequest := (getHostRequest w).internalSerialize
  parseRequest bytes := ((getHostRequest w).parseFromArray bytes).2
  serializeResponse := (getHostResponse w).internalSerialize
  parseResponse bytes :=
    match (getHostResponse w).parseFromArray bytes with
    | (true, resp) => some resp
    | (false, _) => none

theorem parseRequest_serialize (req : GetHostRequest) :
    (hostCodec w).parseRequest ((hostCodec w).serializeRequest req) = req :=
  congrArg Prod.snd ((getHostRequest w).parseFromArray_serialize req)

theorem length_serializeRequest (req : GetHostRequest) :
    ((hostCodec w).serializeRequest req).length ≤ 28 := by
  have hsize := getHostRequest_byteSizeLong_le w req
  rwa [MessageType.byteSizeLong_eq] at hsize

theorem parseResponse_serialize (resp : GetHostResponse) :
    (hostCodec w).parseResponse ((hostCodec w).serializeResponse resp) = some resp := by
  simp only [hostCodec, MessageType.parseFromArray_serialize]

theorem length_serializeResponse (resp : GetHostResponse) :
    ((hostCodec w).serializeResponse resp).length ≤ 63 := by
  have hsize := getHostResponse_byteSizeLong_le w resp
  rwa [MessageType.byteSizeLong_eq] at hsize

/-- The same messages with numbers of seven bits a byte, as protobuf has them. -/
def codec128 : Codec :=
  codec Wire.base128

def hostCodec128 : HostCodec :=
  hostCodec Wire.base128

end Proto
end Rins
