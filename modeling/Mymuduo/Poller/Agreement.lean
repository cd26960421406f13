import Mathlib.Data.List.Basic
import Mymuduo.Machinery.Machine
import Mymuduo.Poller.Interest

/-!
# Poller/Agreement — the index, `channels_` and the kernel tell one story

Three records say whether a channel is known: its own `index_`, the poller's `channels_`, and the
kernel's interest set.  `AgreesAt` is the agreement at one channel, in one line per record:

    interest fd  = some ⟨events_, self⟩  if index_ = kAdded,  none otherwise
    channels_ fd = some self             exactly if index_ ≠ kNew

Under it each call of the poller is one line (`updateChannel_eq`, `removeChannel_eq`): it brings the
records back into agreement, touches nothing at another descriptor, and makes no call `epoll_ctl`
refuses.  `Agrees` then lifts this to any number of channels, whose descriptors need only differ
while they are known.
-/

namespace Mymuduo

open Machinery

namespace EPollPoller

variable {κ : Type*} {p : EPollPoller κ} {self : κ} {c : Channel}

/-! ## One channel -/

/-- The three records agree at a channel. -/
structure AgreesAt (p : EPollPoller κ) (ch : κ) (c : Channel) : Prop where
  interest : p.interest c.fd_ = if c.index_ = .kAdded then some ⟨c.events_, ch⟩ else none
  channels : p.channels_ c.fd_ = some ch ↔ c.index_ ≠ .kNew

/-- The agreement as a call finds it: the mask has already changed, so the kernel's may be stale. -/
structure TracksAt (p : EPollPoller κ) (ch : κ) (c : Channel) : Prop where
  registered : (p.interest c.fd_).isSome ↔ c.index_ = .kAdded
  channels : p.channels_ c.fd_ = some ch ↔ c.index_ ≠ .kNew

theorem AgreesAt.tracks (h : p.AgreesAt self c) (events : Mask) :
    p.TracksAt self { c with events_ := events } := by
  obtain ⟨hint, hchan⟩ := h
  refine ⟨?_, hchan⟩
  rw [hint]
  split <;> simp_all

/-- A call at `fd` left every other descriptor alone and was refused nothing. -/
structure LocalTo (fd : ℤ) (p p' : EPollPoller κ) : Prop where
  interest : ∀ fd', fd' ≠ fd → p'.interest fd' = p.interest fd'
  channels : ∀ fd', fd' ≠ fd → p'.channels_ fd' = p.channels_ fd'
  ctlErrors : p'.ctlErrors = p.ctlErrors
  exited : p'.exited = p.exited

theorem update_add (h : p.interest c.fd_ = none) : p.update self c .EPOLL_CTL_ADD =
    { p with interest := Function.update p.interest c.fd_ (some ⟨c.events_, self⟩) } := by
  simp [update, epoll_ctl, h]

theorem update_mod (h : (p.interest c.fd_).isSome) : p.update self c .EPOLL_CTL_MOD =
    { p with interest := Function.update p.interest c.fd_ (some ⟨c.events_, self⟩) } := by
  obtain ⟨e, he⟩ := Option.isSome_iff_exists.mp h
  simp [update, epoll_ctl, he]

theorem update_del (h : (p.interest c.fd_).isSome) : p.update self c .EPOLL_CTL_DEL =
    { p with interest := Function.update p.interest c.fd_ none } := by
  obtain ⟨e, he⟩ := Option.isSome_iff_exists.mp h
  simp [update, epoll_ctl, he]

/-- The index `updateChannel` leaves: a registered channel that asks for nothing is deleted, every
other one is registered. -/
def indexAfter (c : Channel) : Index :=
  if c.index_ = .kAdded ∧ c.isNoneEvent then .kDeleted else .kAdded

/-- What `updateChannel` leaves in the interest set. -/
def entryAfter (self : κ) (c : Channel) : Option (EpollEvent κ) :=
  if c.index_ = .kAdded ∧ c.isNoneEvent then none else some ⟨c.events_, self⟩

/-- **`updateChannel` in one line**: the four branches differ in the operation they issue, and it is
always the one the interest set is ready for. -/
theorem updateChannel_eq (h : p.TracksAt self c) : p.updateChannel self c =
    ({ p with
        channels_ := Function.update p.channels_ c.fd_ (some self)
        interest := Function.update p.interest c.fd_ (entryAfter self c) },
      c.set_index (indexAfter c)) := by
  obtain ⟨hreg, hchan⟩ := h
  have hkeep : c.index_ ≠ .kNew → Function.update p.channels_ c.fd_ (some self) = p.channels_ :=
    fun hne => by rw [← hchan.mpr hne, Function.update_eq_self]
  cases hi : c.index_ with
  | kNew =>
    have hnone : p.interest c.fd_ = none := by simpa [hi] using hreg
    simp only [updateChannel, hi, true_or, if_true]
    rw [update_add (by exact hnone)]
    simp [entryAfter, indexAfter, hi, Channel.set_index]
  | kDeleted =>
    have hnone : p.interest c.fd_ = none := by simpa [hi] using hreg
    simp only [updateChannel, hi, or_true, if_true, reduceCtorEq, if_false]
    rw [update_add (by exact hnone), hkeep (by simp [hi])]
    simp [entryAfter, indexAfter, hi, Channel.set_index]
  | kAdded =>
    have hsome : (p.interest c.fd_).isSome := hreg.mpr hi
    rw [hkeep (by simp [hi])]
    by_cases hnone : c.isNoneEvent
    · simp only [updateChannel, hi, hnone, reduceCtorEq, or_self, if_false, if_true]
      rw [update_del hsome]
      simp [entryAfter, indexAfter, hi, hnone]
    · simp only [updateChannel, hi, hnone, reduceCtorEq, or_self, if_false]
      rw [update_mod hsome]
      simp only [entryAfter, indexAfter, hi, hnone, Channel.set_index]
      simp [← hi]

/-- **`removeChannel` in one line**: the channel leaves all three records. -/
theorem removeChannel_eq (h : p.TracksAt self c) : p.removeChannel self c =
    ({ p with
        channels_ := Function.update p.channels_ c.fd_ none
        interest := Function.update p.interest c.fd_ none },
      c.set_index .kNew) := by
  obtain ⟨hreg, -⟩ := h
  by_cases hi : c.index_ = .kAdded
  · simp only [removeChannel, hi, if_true]
    rw [update_del (by exact hreg.mpr hi)]
  · have hnone : p.interest c.fd_ = none := by simpa [hi] using hreg
    simp only [removeChannel, hi, if_false]
    rw [← hnone, Function.update_eq_self]

theorem updateChannel_agrees (h : p.TracksAt self c) :
    (p.updateChannel self c).1.AgreesAt self (p.updateChannel self c).2 := by
  rw [updateChannel_eq h]
  constructor
  · simp only [Channel.set_index, Function.update_self, entryAfter, indexAfter]
    split <;> simp
  · refine iff_of_true (Function.update_self ..) ?_
    simp only [Channel.set_index, indexAfter]
    split <;> simp

theorem removeChannel_agrees (h : p.TracksAt self c) :
    (p.removeChannel self c).1.AgreesAt self (p.removeChannel self c).2 := by
  rw [removeChannel_eq h]
  constructor <;> simp [Channel.set_index]

theorem updateChannel_localTo (h : p.TracksAt self c) :
    LocalTo c.fd_ p (p.updateChannel self c).1 := by
  rw [updateChannel_eq h]
  exact ⟨fun fd hfd => Function.update_of_ne hfd _ _, fun fd hfd => Function.update_of_ne hfd _ _,
    rfl, rfl⟩

theorem removeChannel_localTo (h : p.TracksAt self c) :
    LocalTo c.fd_ p (p.removeChannel self c).1 := by
  rw [removeChannel_eq h]
  exact ⟨fun fd hfd => Function.update_of_ne hfd _ _, fun fd hfd => Function.update_of_ne hfd _ _,
    rfl, rfl⟩

end EPollPoller

/-! ## One call -/

namespace ChannelOp

variable {κ : Type*} {op : ChannelOp} {p : EPollPoller κ} {self : κ} {c : Channel} {mask : Mask}

/-- **One call keeps the three records of its channel together**, whatever it is. -/
theorem call_agrees (h : p.AgreesAt self c) :
    (op.call c self p).1.AgreesAt self (op.call c self p).2 := by
  cases hm : op.mask? c.events_ with
  | some mask =>
    rw [call_of_mask hm]
    exact EPollPoller.updateChannel_agrees (h.tracks mask)
  | none =>
    rw [call_of_none hm]
    exact EPollPoller.removeChannel_agrees (h.tracks c.events_)

theorem call_localTo (h : p.AgreesAt self c) :
    EPollPoller.LocalTo c.fd_ p (op.call c self p).1 := by
  cases hm : op.mask? c.events_ with
  | some mask =>
    rw [call_of_mask hm]
    exact EPollPoller.updateChannel_localTo (h.tracks mask)
  | none =>
    rw [call_of_none hm]
    exact EPollPoller.removeChannel_localTo (h.tracks c.events_)

/-- After a call `channels_` has no other channel at the descriptor, whatever it had before. -/
theorem call_sole (h : p.AgreesAt self c) {other : κ}
    (hother : (op.call c self p).1.channels_ c.fd_ = some other) : other = self := by
  cases hm : op.mask? c.events_ with
  | some mask =>
    rw [call_of_mask hm, EPollPoller.updateChannel_eq (h.tracks mask)] at hother
    simpa [eq_comm] using hother
  | none =>
    rw [call_of_none hm, EPollPoller.removeChannel_eq (h.tracks c.events_)] at hother
    simp at hother

/-- The kernel's entry after a call that hands over a mask. -/
theorem interest_call (h : p.AgreesAt self c) (hm : op.mask? c.events_ = some mask) :
    (op.call c self p).1.interest c.fd_ =
      if c.index_ = .kAdded ∧ mask = Channel.kNoneEvent then none else some ⟨mask, self⟩ := by
  rw [call_of_mask hm, EPollPoller.updateChannel_eq (h.tracks mask)]
  simp [EPollPoller.entryAfter, Channel.isNoneEvent]

/-- The index after it. -/
theorem index_call (h : p.AgreesAt self c) (hm : op.mask? c.events_ = some mask) :
    (op.call c self p).2.index_ =
      if c.index_ = .kAdded ∧ mask = Channel.kNoneEvent then .kDeleted else .kAdded := by
  rw [call_of_mask hm, EPollPoller.updateChannel_eq (h.tracks mask)]
  simp [EPollPoller.indexAfter, Channel.isNoneEvent, Channel.set_index]

end ChannelOp

/-! ## Any number of channels

The poller of a loop serves all the channels of that loop.  A run is a list of calls, each made on
one of them; the only thing asked of it is that a descriptor in use belongs to one channel. -/

/-- The channels of a loop, and its poller. -/
structure PollSystem (κ : Type*) where
  channel : κ → Channel
  poller : EPollPoller κ

namespace PollSystem

variable {κ : Type*} {s s₀ : PollSystem κ} {ch : κ}

/-- The poller knows a channel from its first update to its removal. -/
def Known (s : PollSystem κ) (ch : κ) : Prop := (s.channel ch).index_ ≠ .kNew

/-- No other channel the poller knows has this one's descriptor. -/
def Sole (s : PollSystem κ) (ch : κ) : Prop :=
  ∀ ch', ch' ≠ ch → s.Known ch' → (s.channel ch').fd_ ≠ (s.channel ch).fd_

/-- Constructed channels, and a poller that has seen none of them. -/
def Fresh (s : PollSystem κ) : Prop :=
  s.poller = .new ∧ ∀ ch, s.channel ch = .new (s.channel ch).fd_

variable [DecidableEq κ]

/-- The calls: each runs on one channel, whose descriptor is no other known channel's. -/
def calls : Machine (PollSystem κ) (κ × ChannelOp) where
  enabled s a := s.Sole a.1
  next s a :=
    let r := a.2.call (s.channel a.1) a.1 s.poller
    ⟨Function.update s.channel a.1 r.2, r.1⟩

/-- **The invariant of the bookkeeping**: every known channel agrees with its poller, every entry
on either side belongs to a channel, and nothing was refused. -/
structure Agrees (s : PollSystem κ) : Prop where
  agreesAt : ∀ ch, s.Known ch → s.poller.AgreesAt ch (s.channel ch)
  interest_owner : ∀ fd ev, s.poller.interest fd = some ev →
    (s.channel ev.ptr).index_ = .kAdded ∧ (s.channel ev.ptr).fd_ = fd
  channels_owner : ∀ fd ch, s.poller.channels_ fd = some ch →
    s.Known ch ∧ (s.channel ch).fd_ = fd
  ctlErrors : s.poller.ctlErrors = []
  exited : s.poller.exited = false

omit [DecidableEq κ] in
theorem Fresh.agrees (h : s.Fresh) : s.Agrees := by
  obtain ⟨hp, hch⟩ := h
  refine ⟨fun ch hknown => ?_, ?_, ?_, ?_, ?_⟩
  · exact absurd (by rw [hch ch]; rfl) hknown
  all_goals simp [hp, EPollPoller.new]

omit [DecidableEq κ] in
/-- A channel alone on its descriptor agrees with the poller even before the poller knows it. -/
theorem Agrees.at_sole (h : s.Agrees) (hsole : s.Sole ch) :
    s.poller.AgreesAt ch (s.channel ch) := by
  by_cases hknown : s.Known ch
  · exact h.agreesAt ch hknown
  have hnew : (s.channel ch).index_ = .kNew := not_not.mp hknown
  constructor
  · -- an entry at this descriptor would belong to a known channel, hence to this one
    rw [hnew, if_neg (by decide), Option.eq_none_iff_forall_ne_some]
    intro ev hev
    obtain ⟨hadded, hfd⟩ := h.interest_owner _ _ hev
    by_cases hself : ev.ptr = ch
    · simp [hself, hnew] at hadded
    · exact hsole _ hself (by simp [Known, hadded]) hfd
  · exact iff_of_false (fun hself => hknown (h.channels_owner _ _ hself).1) (not_not.mpr hnew)

/-- **The step lemma**: a call local to its descriptor, which leaves its own channel in agreement,
leaves all of them in agreement. -/
theorem Agrees.step (h : s.Agrees) (hsole : s.Sole ch) {p : EPollPoller κ} {c : Channel}
    (hlocal : EPollPoller.LocalTo (s.channel ch).fd_ s.poller p) (hagrees : p.AgreesAt ch c)
    (hsolely : ∀ ch', p.channels_ (s.channel ch).fd_ = some ch' → ch' = ch)
    (hfd : c.fd_ = (s.channel ch).fd_) : Agrees ⟨Function.update s.channel ch c, p⟩ := by
  obtain ⟨hint, hchan, herr, hexit⟩ := hlocal
  refine ⟨fun ch' hknown => ?_, fun fd ev hev => ?_, fun fd ch' hch' => ?_, herr ▸ h.ctlErrors,
    hexit ▸ h.exited⟩
  · by_cases hself : ch' = ch
    · subst hself
      simpa using hagrees
    · simp only [Known, Function.update_of_ne hself] at hknown ⊢
      have hne := hsole ch' hself hknown
      obtain ⟨hi, hc⟩ := h.agreesAt ch' hknown
      exact ⟨by rw [hint _ hne]; exact hi, by rw [hchan _ hne]; exact hc⟩
  · by_cases hat : fd = (s.channel ch).fd_
    · have hev' := hagrees.interest
      rw [hfd, ← hat, hev] at hev'
      split at hev'
      case isTrue hadded =>
        obtain rfl := Option.some.inj hev'
        simpa [hadded, hfd] using hat.symm
      case isFalse => cases hev'
    · obtain ⟨hadded, hown⟩ := h.interest_owner fd ev (by rw [← hint fd hat]; exact hev)
      have hself : ev.ptr ≠ ch := fun heq => hat (by rw [← hown, heq])
      simpa [Function.update_of_ne hself] using ⟨hadded, hown⟩
  · by_cases hat : fd = (s.channel ch).fd_
    · obtain rfl := hsolely ch' (hat ▸ hch')
      have hknown := hagrees.channels.mp (by rw [hfd, ← hat, hch'])
      simpa [Known, hfd, hknown] using hat.symm
    · obtain ⟨hknown, hown⟩ := h.channels_owner fd ch' (by rw [← hchan fd hat]; exact hch')
      have hself : ch' ≠ ch := fun heq => hat (by rw [← hown, heq])
      simpa [Known, Function.update_of_ne hself] using ⟨hknown, hown⟩

theorem Agrees.next (h : s.Agrees) {a : κ × ChannelOp} (hsole : calls.enabled s a) :
    (calls.next s a).Agrees := by
  have hat := h.at_sole hsole
  exact h.step hsole (ChannelOp.call_localTo hat) (ChannelOp.call_agrees hat)
    (fun _ => ChannelOp.call_sole hat) (ChannelOp.fd_call ..)

/-- The invariant holds in every reachable state. -/
theorem agrees_of_reachable (h : calls.Reachable Fresh s) : s.Agrees :=
  h.invariant (fun _ => Fresh.agrees) fun _ _ hs ha => hs.next ha

/-- **The bookkeeping of the poller agrees with the kernel**, for any channels and any calls:
the index says which channels are registered, the registration is the channel's own, the map holds
exactly the known channels, and no call of `epoll_ctl` was refused. -/
theorem bookkeeping_agrees (h : calls.Reachable Fresh s) (ch : κ) :
    ((s.channel ch).index_ = .kAdded ↔
      ∃ ev, s.poller.interest (s.channel ch).fd_ = some ev ∧ ev.ptr = ch) ∧
    (s.Sole ch → ((s.channel ch).index_ = .kAdded ↔
      (s.poller.interest (s.channel ch).fd_).isSome)) ∧
    ((s.channel ch).index_ = .kAdded →
      s.poller.interest (s.channel ch).fd_ = some ⟨(s.channel ch).events_, ch⟩) ∧
    ((s.channel ch).index_ = .kNew ↔ ∀ fd, s.poller.channels_ fd ≠ some ch) ∧
    ((s.channel ch).index_ ≠ .kNew → s.poller.channels_ (s.channel ch).fd_ = some ch) ∧
    s.poller.ctlErrors = [] ∧ s.poller.exited = false := by
  have hs := agrees_of_reachable h
  have hadded : (s.channel ch).index_ = .kAdded →
      s.poller.interest (s.channel ch).fd_ = some ⟨(s.channel ch).events_, ch⟩ := fun hi => by
    rw [(hs.agreesAt ch (by simp [Known, hi])).interest, if_pos hi]
  have hknown : s.Known ch → s.poller.channels_ (s.channel ch).fd_ = some ch := fun hk =>
    (hs.agreesAt ch hk).channels.mpr hk
  refine ⟨⟨fun hi => ⟨_, hadded hi, rfl⟩, ?_⟩, fun hsole => ?_, hadded, ⟨?_, ?_⟩, hknown,
    hs.ctlErrors, hs.exited⟩
  · rintro ⟨ev, hev, rfl⟩
    exact (hs.interest_owner _ _ hev).1
  · rw [(hs.at_sole hsole).interest]
    split <;> simp_all
  · intro hnew fd hfd
    exact (hs.channels_owner fd ch hfd).1 hnew
  · intro hnone
    by_contra hk
    exact hnone _ (hknown hk)

/-- Two channels that share a descriptor in turn: the second is registered once the first has been
removed, and the kernel then holds the second. -/
theorem bookkeeping_agrees_reuse :
    (calls.run (⟨fun _ => .new 7, .new⟩ : PollSystem Bool)
      [(true, .enableReading), (true, .disableAll), (true, .enableWriting), (true, .remove),
        (false, .enableReading)]).poller.interest 7 = some ⟨Channel.kReadEvent, false⟩ := by
  have hreach : calls.Reachable Fresh (calls.run (⟨fun _ => .new 7, .new⟩ : PollSystem Bool)
      [(true, .enableReading), (true, .disableAll), (true, .enableWriting), (true, .remove),
        (false, .enableReading)]) :=
    ⟨_, _, ⟨rfl, fun _ => rfl⟩, by simp [Machine.Valid, Sole, calls, Known]; decide, rfl⟩
  exact (bookkeeping_agrees hreach false).2.2.1 (by decide)

end PollSystem

end Mymuduo
