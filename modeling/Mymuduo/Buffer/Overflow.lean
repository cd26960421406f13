import Mymuduo.Buffer.SizeT

/-!
# Buffer/Overflow — arguments no buffer can serve

Two member functions take a `size_t` from the caller and trust it.  `ensureWriteableBytes(len)`
forms `len + kCheapPrepend` and `writerIndex_ + len`.  The first, wrapped, passes for less than the
free bytes, and a slide is taken for room; the second, wrapped, shrinks the vector below
`writerIndex_`.  Neither happens exactly when there is `Room` (`safe_iff`).  `retrieveAsString(len)`
reads `len` bytes and removes what `retrieve` makes of `len`: the two are the same bytes exactly
when `len` are readable (`returnsRemoved_iff`).
-/

namespace Mymuduo

open Machinery

namespace WordBuffer

variable {max_size len : size_t} {b : WordBuffer}

/-- **`ensureWriteableBytes(len)` is safe**: it throws and changes nothing, or it returns with the
room asked for, the indices in order and the readable bytes as they were. -/
def Safe (max_size : size_t) (b : WordBuffer) (len : size_t) : Prop :=
  ∃ done b', b.ensureWriteableBytes max_size len = some (done, b') ∧
    match done with
    | .length_error => b' = b
    | .returned => len ≤ b'.writableBytes ∧ b'.toBuffer.Inv ∧ b'.content = b.content

/-- **`retrieveAsString(len)` returns what it removes.** -/
def ReturnsRemoved (b : WordBuffer) (len : size_t) : Prop :=
  ∃ s b', b.retrieveAsString len = some (s, b') ∧ s ++ b'.content = b.content

/-! ## `ensureWriteableBytes` -/

theorem safe_of_room (hb : b.Inv max_size) (hroom : b.Room len) : b.Safe max_size len := by
  obtain hthrow | ⟨b', hreturn, hens, hsize⟩ := ensureWriteableBytes_spec hb hroom
  · exact ⟨_, _, hthrow, rfl⟩
  · obtain ⟨b₁, hens', hb₁, hcont, hfree⟩ := Buffer.ensureWriteableBytes_spec hb.order len.toNat
    obtain rfl := Option.some.inj (hens.symm.trans hens')
    refine ⟨_, _, hreturn, ?_, hb₁, hcont⟩
    rw [BitVec.le_def, toNat_writableBytes ⟨hb₁, hsize⟩]
    exact hfree

/-- Without room the writable bytes are too few, so that `makeSpace` is called. -/
theorem makeSpace_of_not_room (hb : b.Inv max_size) (hroom : ¬ b.Room len) :
    b.ensureWriteableBytes max_size len = b.makeSpace max_size len := by
  refine if_pos ?_
  have hlt := hb.lt
  have hsize : b.writerIndex_.toNat ≤ b.buffer_.length := hb.order.size
  have hwrap := (not_or.mp hroom).1
  rw [BitVec.lt_def, toNat_writableBytes hb]
  change b.buffer_.length - b.writerIndex_.toNat < len.toNat
  omega

/-- **`len + kCheapPrepend` wraps**: the bytes slide, and `len` has no room. -/
theorem not_safe_of_slide (hb : b.Inv max_size) (hroom : ¬ b.Room len)
    (hwrap : 2 ^ 64 ≤ len.toNat + Buffer.kCheapPrepend) : ¬ b.Safe max_size len := by
  rintro ⟨done, b', hens, hsafe⟩
  rw [makeSpace_of_not_room hb hroom] at hens
  have hlen := len.isLt
  have hlt := hb.lt
  have hprep : Buffer.kCheapPrepend ≤ b.readerIndex_.toNat := hb.order.prepend
  have hslide : ¬ b.writableBytes + b.prependableBytes < len + kCheapPrepend := by
    rw [BitVec.lt_def, toNat_free hb, BitVec.toNat_add]
    change ¬ _ + b.readerIndex_.toNat < (len.toNat + Buffer.kCheapPrepend) % 2 ^ 64
    simp only [Buffer.kCheapPrepend] at hwrap hprep ⊢
    omega
  rw [makeSpace, if_neg hslide] at hens
  obtain ⟨m, hcopy, hens⟩ := Option.bind_eq_some_iff.mp hens
  obtain ⟨rfl, rfl⟩ := Prod.mk.inj (Option.some.inj hens)
  obtain ⟨hfree, hinv, -⟩ := hsafe
  obtain ⟨m', hcopy', hm, -⟩ := Buffer.copyForward_spec hb.order
  have hsame : m = m' := by
    rw [toNat_readableBytes hb] at hcopy
    exact Option.some.inj (hcopy.symm.trans hcopy')
  have hm₁ : m.length = b.buffer_.length := hsame ▸ hm
  have hinv₁ : Inv max_size ⟨m, kCheapPrepend, kCheapPrepend + b.readableBytes⟩ :=
    ⟨hinv, le_of_eq_of_le hm₁ hb.size⟩
  have hwriter : Buffer.kCheapPrepend ≤ (kCheapPrepend + b.readableBytes).toNat := hinv.order
  rw [BitVec.le_def, toNat_writableBytes hinv₁] at hfree
  simp only [Buffer.writableBytes, toBuffer, hm₁] at hfree
  omega

/-- **`writerIndex_ + len` wraps**: the vector shrinks below `writerIndex_`. -/
theorem not_safe_of_shrink (hb : b.Inv max_size) (hroom : ¬ b.Room len)
    (hsum : len.toNat + Buffer.kCheapPrepend < 2 ^ 64) : ¬ b.Safe max_size len := by
  rintro ⟨done, b', hens, hsafe⟩
  rw [makeSpace_of_not_room hb hroom] at hens
  have hlen := len.isLt
  have hsize : b.writerIndex_.toNat ≤ b.buffer_.length := hb.order.size
  have hmax := hb.size
  obtain ⟨hwrap, hfew⟩ := not_or.mp hroom
  have hgrow : b.writableBytes + b.prependableBytes < len + kCheapPrepend := by
    rw [BitVec.lt_def, toNat_free hb, BitVec.toNat_add_of_lt hsum]
    rw [toNat_writableBytes hb] at hfew
    exact Nat.not_le.mp fun hle => hfew ⟨hsum, hle⟩
  have hshrunk : (b.writerIndex_ + len).toNat < b.writerIndex_.toNat := by
    rw [BitVec.toNat_add]
    omega
  have hfits : b.writerIndex_ + len ≤ max_size := by
    rw [BitVec.le_def]
    omega
  rw [makeSpace, if_pos hgrow, resize, if_pos hfits] at hens
  obtain ⟨rfl, rfl⟩ := Prod.mk.inj (Option.some.inj hens)
  have hinv := hsafe.2.1.size
  simp only [toBuffer, Region.length_resize] at hinv
  omega

/-- **Where `ensureWriteableBytes` is safe.**  Over every run of calls that had room, from every
initial size the vector's constructor does not wrap: `ensureWriteableBytes(len)` throws and changes
nothing, or makes the room, exactly when `writerIndex_ + len` does not wrap or is not formed. -/
theorem safe_iff (max_size initialSize : size_t) (b₀ : WordBuffer) (calls : List Call)
    {outs : List Completion} (hsum : Buffer.kCheapPrepend + initialSize.toNat < 2 ^ 64)
    (hnew : new max_size initialSize = some b₀) (hfits : Meets (step max_size) Fits b₀ calls)
    (hrun : perform (step max_size) b₀ calls = some (outs, b)) (len : size_t) :
    b.Safe max_size len ↔ b.Room len := by
  have hb : b.Inv max_size := perform_invariant (fun _ _ _ _ hs ho h => inv_step hs ho h)
    hfits hrun (inv_new hnew hsum)
  refine ⟨fun hsafe => ?_, safe_of_room hb⟩
  by_contra hroom
  by_cases hlen : len.toNat + Buffer.kCheapPrepend < 2 ^ 64
  · exact not_safe_of_shrink hb hroom hlen hsafe
  · exact not_safe_of_slide hb hroom (Nat.not_lt.mp hlen) hsafe

/-- Room for three bytes, where one is free. -/
theorem safe_iff_three :
    Safe (2 ^ 63 - 1) ⟨[0, 0, 0, 0, 0, 0, 0, 0, 1, 0], 8, 9⟩ 3 :=
  (safe_iff (2 ^ 63 - 1) 2 ⟨List.replicate 10 0, 8, 8⟩ [.append [1]] (by decide) (by decide +kernel)
    (by decide +kernel) rfl 3).mpr (by decide +kernel)

/-- **A vector shrunk to nothing, under a readable byte.** -/
theorem not_safe_wrapped :
    new (2 ^ 63 - 1) 2 = some ⟨List.replicate 10 0, 8, 8⟩ ∧
    perform (step (2 ^ 63 - 1)) ⟨List.replicate 10 0, 8, 8⟩ [.append [1]] =
      some ([.returned], ⟨[0, 0, 0, 0, 0, 0, 0, 0, 1, 0], 8, 9⟩) ∧
    ensureWriteableBytes (2 ^ 63 - 1) ⟨[0, 0, 0, 0, 0, 0, 0, 0, 1, 0], 8, 9⟩ (2 ^ 64 - 9) =
      some (.returned, ⟨[], 8, 9⟩) ∧
    ¬ Safe (2 ^ 63 - 1) ⟨[0, 0, 0, 0, 0, 0, 0, 0, 1, 0], 8, 9⟩ (2 ^ 64 - 9) := by
  refine ⟨by decide +kernel, by decide +kernel, by decide +kernel, ?_⟩
  rintro ⟨done, b', hens, hsafe⟩
  have hshrunk : ensureWriteableBytes (2 ^ 63 - 1) ⟨[0, 0, 0, 0, 0, 0, 0, 0, 1, 0], 8, 9⟩
      (2 ^ 64 - 9) = some (.returned, ⟨[], 8, 9⟩) := by decide +kernel
  obtain ⟨rfl, rfl⟩ := Prod.mk.inj (Option.some.inj (hens.symm.trans hshrunk))
  exact absurd hsafe.2.1.size (by decide +kernel)

/-! ## `retrieveAsString` -/

/-- **What `retrieveAsString` returns.**  Over every run of calls that had room: the string returned
followed by what is left is what was readable, exactly when `len` bytes were. -/
theorem returnsRemoved_iff (max_size initialSize : size_t) (b₀ : WordBuffer) (calls : List Call)
    {outs : List Completion} (hsum : Buffer.kCheapPrepend + initialSize.toNat < 2 ^ 64)
    (hnew : new max_size initialSize = some b₀) (hfits : Meets (step max_size) Fits b₀ calls)
    (hrun : perform (step max_size) b₀ calls = some (outs, b)) (len : size_t) :
    b.ReturnsRemoved len ↔ len ≤ b.readableBytes := by
  have hb : b.Inv max_size := perform_invariant (fun _ _ _ _ hs ho h => inv_step hs ho h)
    hfits hrun (inv_new hnew hsum)
  rw [BitVec.le_def, toNat_readableBytes hb, ReturnsRemoved]
  constructor
  · rintro ⟨s, b', hread, hcontent⟩
    obtain ⟨s', hs', hsome⟩ := Option.bind_eq_some_iff.mp hread
    obtain ⟨rfl, rfl⟩ := Prod.mk.inj (Option.some.inj hsome)
    have hlength : s'.length = len.toNat := by
      rw [Region.read, Option.ite_none_right_eq_some, Option.some_inj] at hs'
      rw [← hs'.2, List.length_take, List.length_drop]
      omega
    have htotal := congrArg List.length hcontent
    rw [List.length_append, hlength, content, content, Buffer.length_content hb.order] at htotal
    omega
  · intro hlen
    have hspec := Buffer.retrieveAsString_spec hb.order hlen
    obtain ⟨s, hs, hsome⟩ := Option.bind_eq_some_iff.mp hspec
    obtain ⟨hs₁, -⟩ := Prod.mk.inj (Option.some.inj hsome)
    refine ⟨s, b.retrieve len, ?_, ?_⟩
    · exact Option.bind_eq_some_iff.mpr ⟨s, hs, rfl⟩
    · rw [hs₁, content, content, retrieve_toBuffer hb, Buffer.content_retrieve hb.order,
        List.take_append_drop]

/-- One byte of the two that are readable. -/
theorem returnsRemoved_iff_one :
    ReturnsRemoved ⟨[0, 0, 0, 0, 0, 0, 0, 0, 1, 2], 8, 10⟩ 1 :=
  (returnsRemoved_iff (2 ^ 63 - 1) 2 ⟨List.replicate 10 0, 8, 8⟩ [.append [1, 2]] (by decide)
    (by decide +kernel) (by decide +kernel) rfl 1).mpr (by decide +kernel)

/-- **A byte of an earlier message**: two are asked for where one is readable. -/
theorem not_returnsRemoved_stale :
    new (2 ^ 63 - 1) 2 = some ⟨List.replicate 10 0, 8, 8⟩ ∧
    perform (step (2 ^ 63 - 1)) ⟨List.replicate 10 0, 8, 8⟩
      [.append [1, 2], .retrieveAll, .append [3]] =
      some ([.returned, .returned, .returned], ⟨[0, 0, 0, 0, 0, 0, 0, 0, 3, 2], 8, 9⟩) ∧
    retrieveAsString ⟨[0, 0, 0, 0, 0, 0, 0, 0, 3, 2], 8, 9⟩ 2 =
      some ([3, 2], ⟨[0, 0, 0, 0, 0, 0, 0, 0, 3, 2], 8, 8⟩) ∧
    ¬ ReturnsRemoved ⟨[0, 0, 0, 0, 0, 0, 0, 0, 3, 2], 8, 9⟩ 2 := by
  refine ⟨by decide +kernel, by decide +kernel, by decide +kernel, ?_⟩
  rintro ⟨s, b', hread, hcontent⟩
  have hstale : retrieveAsString ⟨[0, 0, 0, 0, 0, 0, 0, 0, 3, 2], 8, 9⟩ 2 =
      some ([3, 2], ⟨[0, 0, 0, 0, 0, 0, 0, 0, 3, 2], 8, 8⟩) := by decide +kernel
  obtain ⟨rfl, rfl⟩ := Prod.mk.inj (Option.some.inj (hread.symm.trans hstale))
  exact absurd hcontent (by decide +kernel)

end WordBuffer

end Mymuduo
