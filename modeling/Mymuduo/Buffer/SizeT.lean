import Mathlib.Data.BitVec
import Mymuduo.Buffer.Growth

/-!
# Buffer/SizeT — `Buffer` in the arithmetic of `size_t`

`Buffer` computes with natural numbers; the code computes modulo `2 ^ 64`, and `std::vector` throws
where it is asked for more than `max_size`.  `WordBuffer` is the class with both.  A call on one is
the call on the other as long as `ensureWriteableBytes` has `Room`:

    writerIndex_ + len < 2 ^ 64

or the free bytes on both sides suffice, so that the sum is never formed.
-/

namespace Mymuduo

open Machinery

/-- A buffer with the indices the code has. -/
structure WordBuffer where
  buffer_ : List Byte
  readerIndex_ : size_t
  writerIndex_ : size_t
  deriving DecidableEq, Repr

/-- How a call ends that may have to allocate. -/
inductive Completion
  | returned
  /-- `std::length_error`, thrown by the vector -/
  | length_error
  deriving DecidableEq, Repr

namespace WordBuffer

def kCheapPrepend : size_t := .ofNat 64 Buffer.kCheapPrepend

def extrabufSize : size_t := .ofNat 64 Buffer.extrabufSize

variable (max_size : size_t) (b : WordBuffer)

/-- The constructor, unless the vector's throws. -/
def new (initialSize : size_t) : Option WordBuffer :=
  let n := kCheapPrepend + initialSize
  if n ≤ max_size then some ⟨List.replicate n.toNat 0, kCheapPrepend, kCheapPrepend⟩ else none

/-- `buffer_.size()`. -/
def size : size_t := .ofNat 64 b.buffer_.length

def readableBytes : size_t := b.writerIndex_ - b.readerIndex_

def writableBytes : size_t := b.size - b.writerIndex_

def prependableBytes : size_t := b.readerIndex_

def retrieveAll : WordBuffer :=
  { b with readerIndex_ := kCheapPrepend, writerIndex_ := kCheapPrepend }

def retrieve (len : size_t) : WordBuffer :=
  if len < b.readableBytes then { b with readerIndex_ := b.readerIndex_ + len }
  else b.retrieveAll

def retrieveAsString (len : size_t) : Option (List Byte × WordBuffer) := do
  let result ← Region.read b.buffer_ b.readerIndex_.toNat len.toNat
  return (result, b.retrieve len)

/-- `buffer_.resize(k)`. -/
def resize (k : size_t) : Completion × WordBuffer :=
  if k ≤ max_size then (.returned, { b with buffer_ := Region.resize b.buffer_ k.toNat 0 })
  else (.length_error, b)

def makeSpace (len : size_t) : Option (Completion × WordBuffer) :=
  if b.writableBytes + b.prependableBytes < len + kCheapPrepend then
    some (b.resize max_size (b.writerIndex_ + len))
  else do
    let readable := b.readableBytes
    let buffer_ ← Region.copyForward b.buffer_ b.readerIndex_.toNat kCheapPrepend.toNat
      readable.toNat
    return (.returned,
      { buffer_, readerIndex_ := kCheapPrepend, writerIndex_ := kCheapPrepend + readable })

def ensureWriteableBytes (len : size_t) : Option (Completion × WordBuffer) :=
  if b.writableBytes < len then b.makeSpace max_size len else some (.returned, b)

def append (data : List Byte) : Option (Completion × WordBuffer) := do
  let len := .ofNat 64 data.length
  match ← b.ensureWriteableBytes max_size len with
  | (.length_error, b) => return (.length_error, b)
  | (.returned, b) =>
    let buffer_ ← Region.write b.buffer_ b.writerIndex_.toNat data
    return (.returned, { b with buffer_, writerIndex_ := b.writerIndex_ + len })

def iovecSize : ℕ :=
  b.writableBytes.toNat + if b.writableBytes < extrabufSize then extrabufSize.toNat else 0

/-- `readFd`, without the value it returns.  Where its `append` throws, `writerIndex_` is at the end
already. -/
def readFd (k : ReadvResult) : Option (Completion × WordBuffer) :=
  match k with
  | .fail _ => some (.returned, b)
  | .data bytes => do
      let writable := b.writableBytes
      let buffer_ ← Region.write b.buffer_ b.writerIndex_.toNat (bytes.take writable.toNat)
      let extrabuf ← Region.write (List.replicate extrabufSize.toNat 0) 0
        (bytes.drop writable.toNat)
      let b := { b with buffer_ }
      let n := .ofNat 64 bytes.length
      if n ≤ writable then
        return (.returned, { b with writerIndex_ := b.writerIndex_ + n })
      else
        let spilled ← Region.read extrabuf 0 (n - writable).toNat
        append max_size { b with writerIndex_ := b.size } spilled

/-! ## The calls as one interface -/

/-- A call, with arguments as wide as the code's. -/
inductive Call
  | append (data : List Byte)
  | retrieve (len : size_t)
  | retrieveAll
  | retrieveAsString (len : size_t)
  | retrieveAllAsString
  | ensureWriteableBytes (len : size_t)
  | readFd (k : ReadvResult)
  deriving DecidableEq, Repr

/-- How a call ends, and the buffer afterwards. -/
def step : Call → Option (Completion × WordBuffer)
  | .append data => b.append max_size data
  | .retrieve len => some (.returned, b.retrieve len)
  | .retrieveAll => some (.returned, b.retrieveAll)
  | .retrieveAsString len => (b.retrieveAsString len).map (Completion.returned, ·.2)
  | .retrieveAllAsString =>
      (b.retrieveAsString b.readableBytes).map (Completion.returned, ·.2)
  | .ensureWriteableBytes len => b.ensureWriteableBytes max_size len
  | .readFd k => b.readFd max_size k

/-- **`ensureWriteableBytes(len)` forms no sum that wraps and matters.** -/
def Room (len : size_t) : Prop :=
  b.writerIndex_.toNat + len.toNat < 2 ^ 64 ∨
    (len.toNat + Buffer.kCheapPrepend < 2 ^ 64 ∧
      len.toNat + Buffer.kCheapPrepend ≤ b.writableBytes.toNat + b.prependableBytes.toNat)

instance (len : size_t) : Decidable (b.Room len) := inferInstanceAs (Decidable (_ ∨ _))

/-- Every `ensureWriteableBytes` a call makes has room; the length of `data` is a `size_t`, and
`readv` delivers no more than the `iovec` holds. -/
def Fits : Call → Prop
  | .append data => data.length < 2 ^ 64 ∧ b.Room (.ofNat 64 data.length)
  | .ensureWriteableBytes len => b.Room len
  | .readFd (.data bytes) =>
      bytes.length ≤ b.iovecSize ∧ (b.writableBytes.toNat < bytes.length →
        Room { b with writerIndex_ := b.size } (.ofNat 64 (bytes.length - b.writableBytes.toNat)))
  | .retrieve _ | .retrieveAll | .retrieveAsString _ | .retrieveAllAsString | .readFd (.fail _) =>
      True

instance : ∀ o, Decidable (b.Fits o)
  | .append _ => inferInstanceAs (Decidable (_ ∧ _))
  | .ensureWriteableBytes _ => inferInstanceAs (Decidable (Room _ _))
  | .readFd (.data _) => inferInstanceAs (Decidable (_ ∧ (_ → _)))
  | .retrieve _ | .retrieveAll | .retrieveAsString _ | .retrieveAllAsString | .readFd (.fail _) =>
      isTrue trivial

/-! ## The buffer without the words -/

/-- The same buffer, its indices read as numbers. -/
def toBuffer : Buffer := ⟨b.buffer_, b.readerIndex_.toNat, b.writerIndex_.toNat⟩

/-- The bytes `buffer_[readerIndex_, writerIndex_)`. -/
def content : List Byte := b.toBuffer.content

/-- The indices are in order, and the vector is one that exists. -/
structure Inv : Prop where
  order : b.toBuffer.Inv
  size : b.buffer_.length ≤ max_size.toNat

variable {max_size b} {b' : WordBuffer} {len : size_t}

theorem Inv.lt (hb : b.Inv max_size) : b.buffer_.length < 2 ^ 64 :=
  lt_of_le_of_lt hb.size max_size.isLt

theorem toNat_size (hb : b.Inv max_size) : b.size.toNat = b.buffer_.length := by
  rw [size, BitVec.toNat_ofNat, Nat.mod_eq_of_lt hb.lt]

theorem toNat_readableBytes (hb : b.Inv max_size) :
    b.readableBytes.toNat = b.toBuffer.readableBytes :=
  BitVec.toNat_sub_of_le (show b.readerIndex_ ≤ b.writerIndex_ from hb.order.order)

theorem toNat_writableBytes (hb : b.Inv max_size) :
    b.writableBytes.toNat = b.toBuffer.writableBytes := by
  have hle : b.writerIndex_ ≤ b.size := by
    rw [BitVec.le_def, toNat_size hb]
    exact hb.order.size
  rw [writableBytes, BitVec.toNat_sub_of_le hle, toNat_size hb]
  rfl

/-- The free bytes on both sides are too few to wrap. -/
theorem toNat_free (hb : b.Inv max_size) : (b.writableBytes + b.prependableBytes).toNat =
    b.toBuffer.writableBytes + b.toBuffer.prependableBytes := by
  have hlt := hb.lt
  obtain ⟨-, horder, hsize⟩ := hb.order
  rw [BitVec.toNat_add, toNat_writableBytes hb]
  refine Nat.mod_eq_of_lt ?_
  simp only [Buffer.writableBytes, toBuffer, prependableBytes] at horder hsize ⊢
  omega

/-! ## `ensureWriteableBytes` -/

/-- **With room, `makeSpace` is the one on numbers**, unless the vector throws. -/
theorem makeSpace_spec (hb : b.Inv max_size) (hroom : b.Room len) :
    b.makeSpace max_size len = some (.length_error, b) ∨
      ∃ b', b.makeSpace max_size len = some (.returned, b') ∧
        b.toBuffer.makeSpace len.toNat = some b'.toBuffer ∧
        b'.buffer_.length ≤ max_size.toNat := by
  have hprep : Buffer.kCheapPrepend ≤ b.readerIndex_.toNat := hb.order.prepend
  have horder : b.readerIndex_.toNat ≤ b.writerIndex_.toNat := hb.order.order
  have hlen : (len + kCheapPrepend).toNat = len.toNat + Buffer.kCheapPrepend := by
    refine BitVec.toNat_add_of_lt ?_
    change len.toNat + Buffer.kCheapPrepend < 2 ^ 64
    obtain hsum | ⟨hsum, -⟩ := hroom
    · omega
    · exact hsum
  have hbranch : b.writableBytes + b.prependableBytes < len + kCheapPrepend ↔
      b.toBuffer.writableBytes + b.toBuffer.prependableBytes <
        len.toNat + Buffer.kCheapPrepend := by
    rw [BitVec.lt_def, toNat_free hb, hlen]
  unfold makeSpace Buffer.makeSpace
  by_cases hgrow : b.writableBytes + b.prependableBytes < len + kCheapPrepend
  · have hsum : (b.writerIndex_ + len).toNat = b.writerIndex_.toNat + len.toNat := by
      refine BitVec.toNat_add_of_lt (hroom.resolve_right fun h => ?_)
      rw [toNat_writableBytes hb] at h
      exact absurd (hbranch.mp hgrow) (Nat.not_lt.mpr h.2)
    rw [if_pos hgrow, if_pos (hbranch.mp hgrow), resize]
    by_cases hmax : b.writerIndex_ + len ≤ max_size
    · right
      rw [if_pos hmax, hsum]
      refine ⟨_, rfl, rfl, ?_⟩
      rw [Region.length_resize, ← hsum]
      exact hmax
    · left
      rw [if_neg hmax]
  · right
    obtain ⟨m, hcopy, hm, -⟩ := Buffer.copyForward_spec hb.order
    have hcopy' : Region.copyForward b.buffer_ b.readerIndex_.toNat kCheapPrepend.toNat
        b.readableBytes.toNat = some m := by
      rw [toNat_readableBytes hb]
      exact hcopy
    have hwriter : (kCheapPrepend + b.readableBytes).toNat =
        Buffer.kCheapPrepend + b.toBuffer.readableBytes := by
      rw [← toNat_readableBytes hb]
      refine BitVec.toNat_add_of_lt ?_
      rw [toNat_readableBytes hb]
      change Buffer.kCheapPrepend + (b.writerIndex_.toNat - b.readerIndex_.toNat) < 2 ^ 64
      omega
    rw [if_neg hgrow, if_neg (mt hbranch.mpr hgrow)]
    refine ⟨⟨m, kCheapPrepend, kCheapPrepend + b.readableBytes⟩, by simp [hcopy'], ?_,
      le_of_eq_of_le hm hb.size⟩
    have hindices : toBuffer ⟨m, kCheapPrepend, kCheapPrepend + b.readableBytes⟩ =
        ⟨m, Buffer.kCheapPrepend, Buffer.kCheapPrepend + b.toBuffer.readableBytes⟩ := by
      rw [toBuffer, hwriter]
      rfl
    rw [hindices]
    simp only [hcopy, Option.bind_eq_bind, Option.bind_some, Option.pure_def]

/-- **So is `ensureWriteableBytes`.** -/
theorem ensureWriteableBytes_spec (hb : b.Inv max_size) (hroom : b.Room len) :
    b.ensureWriteableBytes max_size len = some (.length_error, b) ∨
      ∃ b', b.ensureWriteableBytes max_size len = some (.returned, b') ∧
        b.toBuffer.ensureWriteableBytes len.toNat = some b'.toBuffer ∧
        b'.buffer_.length ≤ max_size.toNat := by
  have hbranch : b.writableBytes < len ↔ b.toBuffer.writableBytes < len.toNat := by
    rw [BitVec.lt_def, toNat_writableBytes hb]
  unfold ensureWriteableBytes Buffer.ensureWriteableBytes
  by_cases hfull : b.writableBytes < len
  · rw [if_pos hfull, if_pos (hbranch.mp hfull)]
    exact makeSpace_spec hb hroom
  · rw [if_neg hfull, if_neg (mt hbranch.mpr hfull)]
    exact .inr ⟨b, rfl, rfl, hb.size⟩

/-! ## The other calls keep the indices in order -/

theorem inv_new {initialSize : size_t} (h : new max_size initialSize = some b)
    (hsum : Buffer.kCheapPrepend + initialSize.toNat < 2 ^ 64) : b.Inv max_size := by
  obtain ⟨hmax, hsome⟩ := Option.ite_none_right_eq_some.mp h
  obtain rfl := Option.some.inj hsome
  have hlen : (kCheapPrepend + initialSize).toNat = Buffer.kCheapPrepend + initialSize.toNat :=
    BitVec.toNat_add_of_lt hsum
  refine ⟨⟨le_refl _, le_refl _, ?_⟩, ?_⟩
  · simp only [toBuffer, List.length_replicate, hlen]
    exact Nat.le_add_right _ _
  · rw [List.length_replicate]
    exact hmax

theorem retrieve_toBuffer (hb : b.Inv max_size) (len : size_t) :
    (b.retrieve len).toBuffer = b.toBuffer.retrieve len.toNat := by
  have hbranch : len < b.readableBytes ↔ len.toNat < b.toBuffer.readableBytes := by
    rw [BitVec.lt_def, toNat_readableBytes hb]
  unfold retrieve Buffer.retrieve
  by_cases hlen : len < b.readableBytes
  · rw [if_pos hlen, if_pos (hbranch.mp hlen)]
    have hsum : (b.readerIndex_ + len).toNat = b.readerIndex_.toNat + len.toNat := by
      refine BitVec.toNat_add_of_lt ?_
      have hlt := hbranch.mp hlen
      simp only [Buffer.readableBytes, toBuffer] at hlt
      omega
    simp only [toBuffer, hsum]
  · rw [if_neg hlen, if_neg (mt hbranch.mpr hlen)]
    rfl

theorem inv_retrieve (hb : b.Inv max_size) (len : size_t) : (b.retrieve len).Inv max_size := by
  refine ⟨?_, ?_⟩
  · rw [retrieve_toBuffer hb]
    exact Buffer.inv_retrieve hb.order _
  · have hbuffer : (b.retrieve len).buffer_ = b.buffer_ := by
      unfold retrieve
      split <;> rfl
    rw [hbuffer]
    exact hb.size

theorem inv_retrieveAsString (hb : b.Inv max_size) {s : List Byte}
    (h : b.retrieveAsString len = some (s, b')) : b'.Inv max_size := by
  obtain ⟨s', -, hsome⟩ := Option.bind_eq_some_iff.mp h
  obtain ⟨-, rfl⟩ := Prod.mk.inj (Option.some.inj hsome)
  exact inv_retrieve hb len

theorem inv_ensureWriteableBytes (hb : b.Inv max_size) (hroom : b.Room len) {done : Completion}
    (h : b.ensureWriteableBytes max_size len = some (done, b')) :
    b'.Inv max_size ∧ (done = .returned → len.toNat ≤ b'.toBuffer.writableBytes) := by
  obtain hthrow | ⟨b₁, hreturn, hens, hsize⟩ := ensureWriteableBytes_spec hb hroom
  · obtain ⟨rfl, rfl⟩ := Prod.mk.inj (Option.some.inj (h.symm.trans hthrow))
    exact ⟨hb, nofun⟩
  · obtain ⟨rfl, rfl⟩ := Prod.mk.inj (Option.some.inj (h.symm.trans hreturn))
    obtain ⟨b₂, hens', hb₂, -, hroom'⟩ := Buffer.ensureWriteableBytes_spec hb.order len.toNat
    obtain rfl := Option.some.inj (hens.symm.trans hens')
    exact ⟨⟨hb₂, hsize⟩, fun _ => hroom'⟩

theorem inv_append (hb : b.Inv max_size) {data : List Byte} (hdata : data.length < 2 ^ 64)
    (hroom : b.Room (.ofNat 64 data.length)) {done : Completion}
    (h : b.append max_size data = some (done, b')) : b'.Inv max_size := by
  have hlen : (BitVec.ofNat 64 data.length).toNat = data.length := by
    rw [BitVec.toNat_ofNat, Nat.mod_eq_of_lt hdata]
  obtain ⟨⟨done₁, b₁⟩, hens, h⟩ := Option.bind_eq_some_iff.mp h
  obtain ⟨hb₁, hroom₁⟩ := inv_ensureWriteableBytes hb hroom hens
  cases done₁ with
  | length_error =>
    obtain ⟨-, rfl⟩ := Prod.mk.inj (Option.some.inj h)
    exact hb₁
  | returned =>
    obtain ⟨m, hwrite, h⟩ := Option.bind_eq_some_iff.mp h
    obtain ⟨-, rfl⟩ := Prod.mk.inj (Option.some.inj h)
    have hm := Region.length_write hwrite
    have hend : b₁.writerIndex_.toNat + data.length ≤ b₁.buffer_.length := by
      have hfree := hroom₁ rfl
      have hsize : b₁.writerIndex_.toNat ≤ b₁.buffer_.length := hb₁.order.size
      rw [hlen] at hfree
      simp only [Buffer.writableBytes, toBuffer] at hfree
      omega
    have hwriter : (b₁.writerIndex_ + BitVec.ofNat 64 data.length).toNat =
        b₁.writerIndex_.toNat + data.length := by
      have hlt := hb₁.lt
      rw [BitVec.toNat_add_of_lt (by rw [hlen]; omega), hlen]
    obtain ⟨hprep, horder, -⟩ := hb₁.order
    refine ⟨⟨hprep, ?_, ?_⟩, le_of_eq_of_le hm hb₁.size⟩
    · simp only [toBuffer, hwriter] at horder ⊢
      omega
    · simp only [toBuffer, hwriter, hm]
      exact hend

theorem inv_readFd (hb : b.Inv max_size) {bytes : List Byte}
    (hfits : b.Fits (.readFd (.data bytes))) {done : Completion}
    (h : b.readFd max_size (.data bytes) = some (done, b')) : b'.Inv max_size := by
  obtain ⟨hbytes, hroom⟩ := hfits
  have hlt : bytes.length < 2 ^ 64 := by
    have hwritable := b.writableBytes.isLt
    have hextra : extrabufSize.toNat = 65536 := by decide
    unfold iovecSize at hbytes
    split at hbytes
    · next hsmall =>
      rw [BitVec.lt_def, hextra] at hsmall
      omega
    · omega
  have hn : (BitVec.ofNat 64 bytes.length).toNat = bytes.length := by
    rw [BitVec.toNat_ofNat, Nat.mod_eq_of_lt hlt]
  have hsize : b.writerIndex_.toNat ≤ b.buffer_.length := hb.order.size
  obtain ⟨m, hwrite, h⟩ := Option.bind_eq_some_iff.mp h
  obtain ⟨extrabuf, -, h⟩ := Option.bind_eq_some_iff.mp h
  have hm := Region.length_write hwrite
  by_cases hfit : BitVec.ofNat 64 bytes.length ≤ b.writableBytes
  · rw [if_pos hfit] at h
    obtain ⟨-, rfl⟩ := Prod.mk.inj (Option.some.inj h)
    rw [BitVec.le_def, hn, toNat_writableBytes hb] at hfit
    have hend : b.writerIndex_.toNat + bytes.length ≤ b.buffer_.length := by
      simp only [Buffer.writableBytes, toBuffer] at hfit
      omega
    have hwriter : (b.writerIndex_ + BitVec.ofNat 64 bytes.length).toNat =
        b.writerIndex_.toNat + bytes.length := by
      have hmax := hb.lt
      rw [BitVec.toNat_add_of_lt (by rw [hn]; omega), hn]
    obtain ⟨hprep, horder, -⟩ := hb.order
    refine ⟨⟨hprep, ?_, ?_⟩, le_of_eq_of_le hm hb.size⟩
    · simp only [toBuffer, hwriter] at horder ⊢
      omega
    · simp only [toBuffer, hwriter, hm]
      exact hend
  · rw [if_neg hfit] at h
    obtain ⟨spilled, hread, h⟩ := Option.bind_eq_some_iff.mp h
    rw [BitVec.le_def, hn, Nat.not_le] at hfit
    have hspill : (BitVec.ofNat 64 bytes.length - b.writableBytes).toNat =
        bytes.length - b.writableBytes.toNat := by
      rw [BitVec.toNat_sub_of_le (by rw [BitVec.le_def, hn]; exact Nat.le_of_lt hfit), hn]
    have hspilled : spilled.length = bytes.length - b.writableBytes.toNat := by
      rw [Region.read, Option.ite_none_right_eq_some, Option.some_inj] at hread
      rw [← hread.2, List.length_take, List.length_drop, hspill]
      omega
    -- `writerIndex_ = buffer_.size()`, whatever has been written below it
    have hfull : Inv max_size
        ⟨m, b.readerIndex_, size ⟨m, b.readerIndex_, b.writerIndex_⟩⟩ := by
      have hend : (size ⟨m, b.readerIndex_, b.writerIndex_⟩).toNat = m.length := by
        rw [size, BitVec.toNat_ofNat, Nat.mod_eq_of_lt (hm ▸ hb.lt)]
      refine ⟨⟨hb.order.prepend, ?_, ?_⟩, le_of_eq_of_le hm hb.size⟩
      · simp only [toBuffer, hend, hm]
        exact le_trans hb.order.order hsize
      · simp only [toBuffer, hend, le_refl]
    refine inv_append hfull (by omega) ?_ h
    have hroom' := hroom hfit
    rw [hspilled]
    simpa only [Room, writableBytes, prependableBytes, size, hm] using hroom'

/-- **Every call that fits, and stays inside the storage, keeps the indices in order**, also where
it throws. -/
theorem inv_step (hb : b.Inv max_size) {o : Call} (ho : b.Fits o) {done : Completion}
    (h : b.step max_size o = some (done, b')) : b'.Inv max_size := by
  cases o with
  | append data => exact inv_append hb ho.1 ho.2 h
  | retrieve len =>
    obtain ⟨-, rfl⟩ := Prod.mk.inj (Option.some.inj h)
    exact inv_retrieve hb len
  | retrieveAll =>
    obtain ⟨-, rfl⟩ := Prod.mk.inj (Option.some.inj h)
    exact ⟨Buffer.inv_retrieveAll hb.order, hb.size⟩
  | retrieveAsString len =>
    obtain ⟨⟨s, b₁⟩, hread, hcall⟩ := Option.map_eq_some_iff.mp h
    obtain ⟨-, rfl⟩ := Prod.mk.inj hcall
    exact inv_retrieveAsString hb hread
  | retrieveAllAsString =>
    obtain ⟨⟨s, b₁⟩, hread, hcall⟩ := Option.map_eq_some_iff.mp h
    obtain ⟨-, rfl⟩ := Prod.mk.inj hcall
    exact inv_retrieveAsString hb hread
  | ensureWriteableBytes len => exact (inv_ensureWriteableBytes hb ho h).1
  | readFd k =>
    cases k with
    | fail errno =>
      obtain ⟨-, rfl⟩ := Prod.mk.inj (Option.some.inj h)
      exact hb
    | data bytes => exact inv_readFd hb ho h

end WordBuffer

end Mymuduo
