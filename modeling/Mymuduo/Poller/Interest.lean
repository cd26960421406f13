import Mymuduo.Poller.Model

/-!
# Poller/Interest — what a call does to the two kinds of interest

`kReadEvent` and `kWriteEvent` share no bit, so a call on one kind leaves the other alone.  And
whatever branch `updateChannel` takes, the channel keeps the mask it was called with: what a channel
asks for never depends on its poller.
-/

namespace Mymuduo

/-! ## Disjoint masks -/

namespace Mask

variable {m a b : Mask}

/-- Setting bits leaves the bits outside them. -/
theorem or_and_of_disjoint (h : a &&& b = 0#32) : (m ||| a) &&& b = m &&& b := by
  rw [BitVec.and_or_distrib_right, h, BitVec.or_zero]

/-- So does clearing them. -/
theorem and_not_and_of_disjoint (h : a &&& b = 0#32) : (m &&& ~~~a) &&& b = m &&& b := by
  ext i hi
  have hbit : (a &&& b)[i] = (0#32)[i] := by rw [h]
  simp only [BitVec.getElem_and, BitVec.getElem_zero, BitVec.getElem_not] at hbit ⊢
  cases ha : a[i]
  · simp
  · simp [ha] at hbit
    simp [hbit]

/-- A bit that is set is there. -/
theorem or_and_ne_zero (ha : a ≠ 0#32) : (m ||| a) &&& a ≠ 0#32 := by
  rw [BitVec.and_or_distrib_right, BitVec.and_self]
  intro h
  refine ha ?_
  ext i hi
  have hbit : ((m &&& a) ||| a)[i] = (0#32)[i] := by rw [h]
  simp only [BitVec.getElem_or, BitVec.getElem_zero, Bool.or_eq_false_iff] at hbit
  rw [hbit.2, BitVec.getElem_zero]

/-- The bits that setting `a` adds where it was clear. -/
theorem or_and_not_of_disjoint (h : m &&& a = 0#32) : (m ||| a) &&& ~~~m = a := by
  ext i hi
  have hbit : (m &&& a)[i] = (0#32)[i] := by rw [h]
  simp only [BitVec.getElem_and, BitVec.getElem_or, BitVec.getElem_not, BitVec.getElem_zero]
    at hbit ⊢
  cases hm : m[i]
  · simp
  · simp [hm] at hbit
    simp [hbit]

theorem and_not_and_self : (m &&& ~~~a) &&& a = 0#32 := by
  rw [BitVec.and_assoc, BitVec.not_and_self]
  exact BitVec.and_zero

end Mask

/-! ## The channel after a call -/

namespace EPollPoller

variable {κ : Type*} (p : EPollPoller κ) (self : κ) (c : Channel)

/-- `updateChannel` changes a channel's index only. -/
theorem updateChannel_snd : ∃ i, (p.updateChannel self c).2 = c.set_index i := by
  unfold updateChannel
  split
  · exact ⟨.kAdded, rfl⟩
  split
  · exact ⟨.kDeleted, rfl⟩
  · exact ⟨c.index_, rfl⟩

end EPollPoller

namespace ChannelOp

variable {κ : Type*} {op : ChannelOp} {p : EPollPoller κ} {self : κ} {c : Channel} {mask : Mask}

/-- The mask a call hands to `update`; `remove` hands over none. -/
def mask? (op : ChannelOp) (events : Mask) : Option Mask :=
  match op with
  | enableReading => some (events ||| Channel.kReadEvent)
  | disalbeReading => some (events &&& ~~~Channel.kReadEvent)
  | enableWriting => some (events ||| Channel.kWriteEvent)
  | disableWriting => some (events &&& ~~~Channel.kWriteEvent)
  | disableAll => some Channel.kNoneEvent
  | remove => none

theorem call_of_mask (h : op.mask? c.events_ = some mask) :
    op.call c self p = p.updateChannel self { c with events_ := mask } := by
  cases op <;> simp only [mask?, Option.some.injEq, reduceCtorEq] at h <;> subst h <;> rfl

theorem call_of_none (h : op.mask? c.events_ = none) :
    op.call c self p = p.removeChannel self c := by
  cases op <;> simp only [mask?, reduceCtorEq] at h
  rfl

/-- What a call leaves the channel asking for. -/
theorem events_call (op : ChannelOp) (c : Channel) (self : κ) (p : EPollPoller κ) :
    (op.call c self p).2.events_ = (op.mask? c.events_).getD c.events_ := by
  cases hm : op.mask? c.events_ with
  | some mask =>
    obtain ⟨i, hi⟩ := p.updateChannel_snd self { c with events_ := mask }
    rw [call_of_mask hm, hi]
    rfl
  | none => rw [call_of_none hm]; rfl

theorem fd_call (op : ChannelOp) (c : Channel) (self : κ) (p : EPollPoller κ) :
    (op.call c self p).2.fd_ = c.fd_ := by
  cases hm : op.mask? c.events_ with
  | some mask =>
    obtain ⟨i, hi⟩ := p.updateChannel_snd self { c with events_ := mask }
    rw [call_of_mask hm, hi]
    rfl
  | none => rw [call_of_none hm]; rfl

theorem revents_call (op : ChannelOp) (c : Channel) (self : κ) (p : EPollPoller κ) :
    (op.call c self p).2.revents_ = c.revents_ := by
  cases hm : op.mask? c.events_ with
  | some mask =>
    obtain ⟨i, hi⟩ := p.updateChannel_snd self { c with events_ := mask }
    rw [call_of_mask hm, hi]
    rfl
  | none => rw [call_of_none hm]; rfl

/-! ### Reading and writing -/

variable (c self p)

@[simp] theorem isWriting_enableReading :
    (enableReading.call c self p).2.isWriting = c.isWriting := by
  simp only [Channel.isWriting, events_call, mask?, Option.getD_some]
  rw [Mask.or_and_of_disjoint (by decide)]

@[simp] theorem isReading_enableReading : (enableReading.call c self p).2.isReading = true := by
  simp only [Channel.isReading, events_call, mask?, Option.getD_some, bne_iff_ne]
  exact Mask.or_and_ne_zero (by decide)

@[simp] theorem isWriting_enableWriting : (enableWriting.call c self p).2.isWriting = true := by
  simp only [Channel.isWriting, events_call, mask?, Option.getD_some, bne_iff_ne]
  exact Mask.or_and_ne_zero (by decide)

@[simp] theorem isReading_enableWriting :
    (enableWriting.call c self p).2.isReading = c.isReading := by
  simp only [Channel.isReading, events_call, mask?, Option.getD_some]
  rw [Mask.or_and_of_disjoint (by decide)]

@[simp] theorem isWriting_disableWriting : (disableWriting.call c self p).2.isWriting = false := by
  simp only [Channel.isWriting, events_call, mask?, Option.getD_some, Mask.and_not_and_self]
  rfl

@[simp] theorem isReading_disableWriting :
    (disableWriting.call c self p).2.isReading = c.isReading := by
  simp only [Channel.isReading, events_call, mask?, Option.getD_some]
  rw [Mask.and_not_and_of_disjoint (by decide)]

@[simp] theorem isWriting_disableAll : (disableAll.call c self p).2.isWriting = false := by
  simp only [Channel.isWriting, events_call, mask?, Option.getD_some]
  rfl

@[simp] theorem isReading_disableAll : (disableAll.call c self p).2.isReading = false := by
  simp only [Channel.isReading, events_call, mask?, Option.getD_some]
  rfl

@[simp] theorem isWriting_remove : (remove.call c self p).2.isWriting = c.isWriting := rfl

@[simp] theorem isReading_remove : (remove.call c self p).2.isReading = c.isReading := rfl

/-- A channel that asks for reading or writing asks for something. -/
theorem ne_none_of_isReading {c : Channel} (h : c.isReading) : c.events_ ≠ Channel.kNoneEvent := by
  intro hnone
  simp [Channel.isReading, hnone, Channel.kNoneEvent] at h

end ChannelOp

end Mymuduo
