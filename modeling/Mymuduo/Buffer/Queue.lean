import Mathlib.Data.Nat.Basic
import Mymuduo.Buffer.Model
import Mymuduo.Machinery.Refinement

/-!
# Buffer/Queue — `Buffer` is a FIFO queue of bytes

What a buffer holds is `content`; each member function is one operation on that list (`fifo`), and
none of them touches a byte outside `buffer_`.  `ensureWriteableBytes_spec` carries the argument:
either the vector grows, which keeps every window, or the readable bytes slide down to
`kCheapPrepend` — a forward copy to strictly lower addresses, since a slide is only taken when
`kCheapPrepend < readerIndex_`.

`SafeBuffer` then packages a buffer with its invariant, so that the operations are total on it.
-/

namespace Mymuduo

open Machinery

namespace Buffer

variable {b : Buffer}

/-! ## Indices and content -/

theorem length_content (hb : b.Inv) : b.content.length = b.readableBytes := by
  rw [content, Region.length_window hb.size, readableBytes]

theorem inv_new (initialSize : ℕ) : (new initialSize).Inv where
  prepend := le_refl _
  order := le_refl _
  size := by simp [new]

@[simp] theorem content_new (initialSize : ℕ) : (new initialSize).content = [] :=
  Region.window_self _ _

theorem inv_retrieveAll (hb : b.Inv) : b.retrieveAll.Inv where
  prepend := le_refl _
  order := le_refl _
  size := le_trans hb.prepend (le_trans hb.order hb.size)

@[simp] theorem content_retrieveAll (b : Buffer) : b.retrieveAll.content = [] :=
  Region.window_self _ _

theorem inv_retrieve (hb : b.Inv) (len : ℕ) : (b.retrieve len).Inv := by
  unfold retrieve
  split
  · rename_i hlen
    have hadv : b.readerIndex_ + len ≤ b.writerIndex_ := by
      unfold readableBytes at hlen
      omega
    exact ⟨le_trans hb.prepend (Nat.le_add_right _ _), hadv, hb.size⟩
  · exact inv_retrieveAll hb

/-- **`retrieve` drops from the front.** -/
theorem content_retrieve (hb : b.Inv) (len : ℕ) :
    (b.retrieve len).content = b.content.drop len := by
  unfold retrieve
  split
  · exact (Region.drop_window _ _ _ _).symm
  · rename_i hlen
    rw [content_retrieveAll, List.drop_eq_nil_of_le]
    rw [length_content hb]
    omega

/-! ## Making room -/

/-- **A slide moves the readable bytes down.** -/
theorem copyForward_spec (hb : b.Inv) :
    ∃ m, Region.copyForward b.buffer_ b.readerIndex_ kCheapPrepend b.readableBytes = some m ∧
      m.length = b.buffer_.length ∧
      Region.window m kCheapPrepend (kCheapPrepend + b.readableBytes) = b.content := by
  have hend : b.readerIndex_ + b.readableBytes = b.writerIndex_ := by
    have := hb.order
    unfold readableBytes
    omega
  obtain ⟨m, hcopy, hlen, hwin⟩ := Region.window_copyForward (m := b.buffer_) (n := b.readableBytes)
    hb.prepend (by rw [hend]; exact hb.size)
  exact ⟨m, hcopy, hlen, by rw [hwin, hend, content]⟩

/-- **`makeSpace` keeps the content and makes the room**, whichever way it goes. -/
theorem makeSpace_spec (hb : b.Inv) {len : ℕ} (hlen : b.writableBytes < len) :
    ∃ b', b.makeSpace len = some b' ∧ b'.Inv ∧ b'.content = b.content ∧
      len ≤ b'.writableBytes := by
  obtain ⟨hprep, horder, hsize⟩ := hb
  unfold makeSpace
  split
  · have hgrow : b.buffer_.length ≤ b.writerIndex_ + len := by
      unfold writableBytes at hlen
      omega
    refine ⟨_, rfl, ⟨hprep, horder, ?_⟩, ?_, ?_⟩
    · rw [Region.length_resize]
      exact Nat.le_add_right _ _
    · exact Region.window_resize hsize (Nat.le_add_right _ _)
    · simp [writableBytes, Region.length_resize]
  · rename_i hroom
    obtain ⟨m, hcopy, hm, hwin⟩ := copyForward_spec ⟨hprep, horder, hsize⟩
    refine ⟨⟨m, kCheapPrepend, kCheapPrepend + b.readableBytes⟩, by simp [hcopy],
      ⟨le_refl _, Nat.le_add_right _ _, ?_⟩, hwin, ?_⟩
    · simp only [hm, readableBytes, kCheapPrepend] at hprep ⊢
      omega
    · simp only [writableBytes, prependableBytes, readableBytes, hm, not_lt] at hroom hlen ⊢
      omega

theorem ensureWriteableBytes_spec (hb : b.Inv) (len : ℕ) :
    ∃ b', b.ensureWriteableBytes len = some b' ∧ b'.Inv ∧ b'.content = b.content ∧
      len ≤ b'.writableBytes := by
  unfold ensureWriteableBytes
  split
  · rename_i hlen
    exact makeSpace_spec hb hlen
  · rename_i hlen
    exact ⟨b, rfl, hb, rfl, not_lt.mp hlen⟩

/-! ## Appending and reading -/

/-- Bytes written at `writerIndex_` extend the content. -/
theorem write_spec (hb : b.Inv) {data : List Byte} (hdata : data.length ≤ b.writableBytes) :
    ∃ m, Region.write b.buffer_ b.writerIndex_ data = some m ∧ m.length = b.buffer_.length ∧
      Region.window m b.readerIndex_ (b.writerIndex_ + data.length) = b.content ++ data := by
  have hfit : b.writerIndex_ + data.length ≤ b.buffer_.length := by
    have := hb.size
    unfold writableBytes at hdata
    omega
  exact ⟨_, Region.write_eq hfit, Region.length_write (Region.write_eq hfit),
    Region.window_write hb.order (Region.write_eq hfit)⟩

/-- **`append` adds at the back.** -/
theorem append_spec (hb : b.Inv) (data : List Byte) :
    ∃ b', b.append data = some b' ∧ b'.Inv ∧ b'.content = b.content ++ data := by
  obtain ⟨b₁, hens, hb₁, hcont, hroom⟩ := ensureWriteableBytes_spec hb data.length
  obtain ⟨m, hwrite, hm, hwin⟩ := write_spec hb₁ hroom
  refine ⟨{ b₁ with buffer_ := m, writerIndex_ := b₁.writerIndex_ + data.length }, ?_, ?_, ?_⟩
  · simp [append, hens, hwrite]
  · refine ⟨hb₁.prepend, le_trans hb₁.order (Nat.le_add_right _ _), ?_⟩
    have := hb₁.size
    simp only [writableBytes, hm] at hroom ⊢
    omega
  · rw [← hcont]
    exact hwin

/-- **`retrieveAsString` returns the bytes it drops**, when it asks for no more than is readable. -/
theorem retrieveAsString_spec (hb : b.Inv) {len : ℕ} (hlen : len ≤ b.readableBytes) :
    b.retrieveAsString len = some (b.content.take len, b.retrieve len) := by
  have hend : b.readerIndex_ + len ≤ b.writerIndex_ := by
    have := hb.order
    unfold readableBytes at hlen
    omega
  have hread : Region.read b.buffer_ b.readerIndex_ len = some (b.content.take len) := by
    rw [Region.read_eq (le_trans hend hb.size), content, Region.take_window, Nat.min_eq_left hend]
  simp [retrieveAsString, hread]

theorem retrieveAllAsString_spec (hb : b.Inv) :
    b.retrieveAllAsString = some (b.content, b.retrieve b.readableBytes) := by
  rw [retrieveAllAsString, retrieveAsString_spec hb (le_refl _), ← length_content hb,
    List.take_length]

/-- `writeFd` hands the kernel exactly the readable bytes. -/
theorem writeFd_spec (hb : b.Inv) (r : WriteResult) :
    b.writeFd r = some (b.content, r.n, if r.n < 0 then some r.errno else none) := by
  have hend : b.readerIndex_ + b.readableBytes = b.writerIndex_ := by
    have := hb.order
    unfold readableBytes
    omega
  have hread : Region.read b.buffer_ b.readerIndex_ b.readableBytes = some b.content := by
    rw [Region.read_eq (by rw [hend]; exact hb.size), hend, content]
  simp [writeFd, hread]

/-- What `extrabuf` holds after the kernel put `spill` there, read back. -/
theorem extrabuf_spec {spill : List Byte} (hspill : spill.length ≤ extrabufSize) :
    ∃ m, Region.write (List.replicate extrabufSize 0) 0 spill = some m ∧
      Region.read m 0 spill.length = some spill := by
  have hfit : 0 + spill.length ≤ (List.replicate extrabufSize (0 : Byte)).length := by
    rw [List.length_replicate]
    omega
  have hwrite := Region.write_eq hfit
  refine ⟨_, hwrite, ?_⟩
  rw [Region.read_eq (by rw [Region.length_write hwrite]; exact hfit),
    Region.window_write (le_refl 0) hwrite, Region.window_self, List.nil_append]

/-- **`readFd` appends the bytes the kernel delivered**, over both parts of the `iovec`. -/
theorem readFd_spec (hb : b.Inv) {bytes : List Byte} (hbytes : bytes.length ≤ b.iovecSize) :
    ∃ b', b.readFd (.data bytes) = some ((bytes.length : ℤ), none, b') ∧ b'.Inv ∧
      b'.content = b.content ++ bytes := by
  have htake : (bytes.take b.writableBytes).length ≤ b.writableBytes := by
    rw [List.length_take]
    exact Nat.min_le_left _ _
  obtain ⟨m, hwrite, hm, hwin⟩ := write_spec hb htake
  have hspill : (bytes.drop b.writableBytes).length ≤ extrabufSize := by
    rw [List.length_drop]
    unfold iovecSize at hbytes
    split at hbytes <;> omega
  obtain ⟨e, hextra, hread⟩ := extrabuf_spec hspill
  have hsize := hb.size
  by_cases hfit : bytes.length ≤ b.writableBytes
  · rw [List.take_of_length_le hfit] at hwrite hwin
    refine ⟨{ b with buffer_ := m, writerIndex_ := b.writerIndex_ + bytes.length }, ?_, ?_, hwin⟩
    · simp [readFd, List.take_of_length_le hfit, hwrite, hextra, hfit]
    · refine ⟨hb.prepend, le_trans hb.order (Nat.le_add_right _ _), ?_⟩
      simp only [writableBytes, hm] at hfit ⊢
      omega
  · have hend : b.writerIndex_ + (bytes.take b.writableBytes).length = m.length := by
      rw [List.length_take, hm]
      unfold writableBytes at hfit ⊢
      omega
    have hfull : ({ b with buffer_ := m, writerIndex_ := m.length } : Buffer).Inv :=
      ⟨hb.prepend, by rw [hm]; exact le_trans hb.order hsize, le_refl _⟩
    obtain ⟨b', happ, hb', hcont⟩ := append_spec hfull (bytes.drop b.writableBytes)
    refine ⟨b', ?_, hb', ?_⟩
    · rw [List.length_drop] at hread
      simp [readFd, hwrite, hextra, hfit, hread, happ]
    · rw [hend] at hwin
      rw [hcont, content, hwin, List.append_assoc, List.take_append_drop]

/-! ## The refinement -/

/-- **The queue of bytes a buffer stands for**, one clause per call. -/
def fifo (q : List Byte) : Op → Out × List Byte
  | .append data => (.void, q ++ data)
  | .retrieve len => (.void, q.drop len)
  | .retrieveAll => (.void, [])
  | .retrieveAsString len => (.string (q.take len), q.drop len)
  | .retrieveAllAsString => (.string q, [])
  | .ensureWriteableBytes _ => (.void, q)
  | .readFd (.fail errno) => (.count (-1) (some errno), q)
  | .readFd (.data bytes) => (.count bytes.length none, q ++ bytes)

/-- **Every call commutes with the queue**: it stays inside `buffer_`, keeps the indices in order,
and does to the content what `fifo` says. -/
theorem call_refines : Refines call Allowed Inv content fifo := by
  intro b o hb ho
  cases o with
  | append data =>
    obtain ⟨b', happ, hb', hcont⟩ := append_spec hb data
    exact ⟨.void, b', by simp [call, happ], hb', by simp [fifo, hcont]⟩
  | retrieve len =>
    exact ⟨.void, _, rfl, inv_retrieve hb len, by simp [fifo, content_retrieve hb]⟩
  | retrieveAll => exact ⟨.void, _, rfl, inv_retrieveAll hb, by simp [fifo]⟩
  | retrieveAsString len =>
    refine ⟨.string (b.content.take len), b.retrieve len, ?_, inv_retrieve hb len, ?_⟩
    · simp [call, retrieveAsString_spec hb ho]
    · simp [fifo, content_retrieve hb]
  | retrieveAllAsString =>
    refine ⟨.string b.content, b.retrieve b.readableBytes, ?_, inv_retrieve hb _, ?_⟩
    · simp [call, retrieveAllAsString_spec hb]
    · simp [fifo, content_retrieve hb, ← length_content hb]
  | ensureWriteableBytes len =>
    obtain ⟨b', hens, hb', hcont, -⟩ := ensureWriteableBytes_spec hb len
    exact ⟨.void, b', by simp [call, hens], hb', by simp [fifo, hcont]⟩
  | readFd k =>
    cases k with
    | fail errno => exact ⟨.count (-1) (some errno), b, rfl, hb, rfl⟩
    | data bytes =>
      obtain ⟨b', hread, hb', hcont⟩ := readFd_spec hb ho
      exact ⟨.count bytes.length none, b', by simp [call, hread], hb', by simp [fifo, hcont]⟩

/-- **A buffer is a FIFO queue of bytes**, over every sequence of calls from every initial size: no
call leaves `buffer_`, the indices stay in order, the results and the content are those of the
queue, room asked for is there, and a failed read changes nothing. -/
theorem refines_fifo (initialSize : ℕ) (calls : List Op)
    (h : Meets call Allowed (new initialSize) calls) :
    ∃ outs b, perform call (new initialSize) calls = some (outs, b) ∧
      (kCheapPrepend ≤ b.readerIndex_ ∧ b.readerIndex_ ≤ b.writerIndex_ ∧
        b.writerIndex_ ≤ b.buffer_.length) ∧
      prescribe fifo [] calls = (outs, b.content) ∧
      (∀ len, ∃ b', b.ensureWriteableBytes len = some b' ∧ b'.content = b.content ∧
        len ≤ b'.writableBytes) ∧
      ∀ errno, b.call (.readFd (.fail errno)) = some (.count (-1) (some errno), b) := by
  obtain ⟨outs, b, hperf, hb, hpre⟩ := call_refines.perform (inv_new initialSize) h
  refine ⟨outs, b, hperf, ⟨hb.prepend, hb.order, hb.size⟩, by simpa using hpre, fun len => ?_,
    fun errno => rfl⟩
  obtain ⟨b', hens, -, hcont, hroom⟩ := ensureWriteableBytes_spec hb len
  exact ⟨b', hens, hcont, hroom⟩

/-- A buffer of four bytes that is filled, read from, slid and grown. -/
theorem refines_fifo_grow :
    ∃ outs b, perform call (new 4) [.append [1, 2, 3], .retrieveAsString 2, .append [4, 5, 6],
        .readFd (.fail 11), .append [7, 8, 9], .retrieveAllAsString] = some (outs, b) ∧
      (kCheapPrepend ≤ b.readerIndex_ ∧ b.readerIndex_ ≤ b.writerIndex_ ∧
        b.writerIndex_ ≤ b.buffer_.length) ∧
      prescribe fifo [] [.append [1, 2, 3], .retrieveAsString 2, .append [4, 5, 6],
        .readFd (.fail 11), .append [7, 8, 9], .retrieveAllAsString] = (outs, b.content) ∧
      (∀ len, ∃ b', b.ensureWriteableBytes len = some b' ∧ b'.content = b.content ∧
        len ≤ b'.writableBytes) ∧
      ∀ errno, b.call (.readFd (.fail errno)) = some (.count (-1) (some errno), b) :=
  refines_fifo 4 _ (by decide)

end Buffer

/-! ## Buffers that carry their invariant -/

/-- A buffer whose indices are in order. -/
structure SafeBuffer extends Buffer where
  inv : toBuffer.Inv

namespace SafeBuffer

open Buffer

variable (b : SafeBuffer)

/-- A buffer as the constructor leaves it. -/
def new (initialSize : ℕ) : SafeBuffer := ⟨Buffer.new initialSize, inv_new initialSize⟩

/-- What the buffer holds. -/
def content : List Byte := b.toBuffer.content

@[simp] theorem content_new (initialSize : ℕ) : (new initialSize).content = [] :=
  Buffer.content_new initialSize

theorem length_content : b.content.length = b.readableBytes := Buffer.length_content b.inv

theorem readableBytes_eq_zero : b.readableBytes = 0 ↔ b.content = [] := by
  rw [← b.length_content, List.length_eq_zero_iff]

theorem append_isSome (data : List Byte) : (b.toBuffer.append data).isSome := by
  obtain ⟨b', happ, -⟩ := append_spec b.inv data
  simp [happ]

theorem append_get (data : List Byte) :
    ((b.toBuffer.append data).get (b.append_isSome data)).Inv ∧
      ((b.toBuffer.append data).get (b.append_isSome data)).content = b.content ++ data := by
  obtain ⟨b', happ, hb', hcont⟩ := append_spec b.inv data
  simp only [happ, Option.get_some]
  exact ⟨hb', hcont⟩

/-- `append`, which never leaves the storage. -/
def append (data : List Byte) : SafeBuffer where
  toBuffer := (b.toBuffer.append data).get (b.append_isSome data)
  inv := (b.append_get data).1

@[simp] theorem content_append (data : List Byte) : (b.append data).content = b.content ++ data :=
  (b.append_get data).2

/-- `retrieve`, which keeps the indices in order. -/
def retrieve (len : ℕ) : SafeBuffer := ⟨b.toBuffer.retrieve len, inv_retrieve b.inv len⟩

@[simp] theorem content_retrieve (len : ℕ) : (b.retrieve len).content = b.content.drop len :=
  Buffer.content_retrieve b.inv len

/-- The bytes `writeFd` offers the kernel. -/
theorem writeFd_eq (r : WriteResult) :
    b.toBuffer.writeFd r = some (b.content, r.n, if r.n < 0 then some r.errno else none) :=
  writeFd_spec b.inv r

/-- The buffer after `readFd`; an answer the `iovec` has no room for cannot occur. -/
def readFd (k : ReadvResult) : SafeBuffer :=
  if h : b.Allowed (.readFd k) then
    ⟨((b.toBuffer.call (.readFd k)).get (by
        obtain ⟨r, b', hcall, -⟩ := call_refines _ _ b.inv h
        simp [hcall])).2, by
      obtain ⟨r, b', hcall, hb', -⟩ := call_refines _ _ b.inv h
      simpa [hcall] using hb'⟩
  else b

end SafeBuffer

end Mymuduo
