import Mymuduo.Poller.Agreement

/-!
# Poller/EmptyMask — when a channel that asks for nothing is watched

`updateChannel` looks at the index first and at the mask only where the index is `kAdded`.  So an
empty mask deregisters a registered channel and *registers* every other one: a fresh channel
(`Acceptor::~Acceptor` before `listen`), or one already deleted (`handleClose` run twice).

    index_     kNew / kDeleted     kAdded
    mask = 0   ADD, watched        DEL, not watched
    mask ≠ 0   ADD, watched        MOD, watched

The law "watched exactly while the mask is non-empty" fails in one square of the table, and a run
keeps it exactly if it stays out of that square (`lawful_iff`).
-/

namespace Mymuduo

open Machinery

namespace PollSystem

variable {κ : Type*} [DecidableEq κ] {s s₀ : PollSystem κ} {ch : κ} {a : κ × ChannelOp}
  {as : List (κ × ChannelOp)}

/-- The law at one call: a channel just updated is watched exactly if it asks for something. -/
def WatchedIffInterested (s : PollSystem κ) (a : κ × ChannelOp) : Prop :=
  a.2 ≠ .remove →
    (((calls.next s a).poller.interest ((calls.next s a).channel a.1).fd_).isSome ↔
      ((calls.next s a).channel a.1).events_ ≠ Channel.kNoneEvent)

/-- **The law of a run**: every update obeys it, and a repeated `disableAll` leaves the poller as
the first one did. -/
def Lawful (s : PollSystem κ) (as : List (κ × ChannelOp)) : Prop :=
  calls.Along WatchedIffInterested s as ∧
  ∀ bs ch, bs ++ [(ch, .disableAll), (ch, .disableAll)] <+: as →
    (calls.run s (bs ++ [(ch, .disableAll), (ch, .disableAll)])).poller =
      (calls.run s (bs ++ [(ch, .disableAll)])).poller

/-- A call that stays out of the bad square: it finds its channel registered, or leaves it a
non-empty mask. -/
def FindsAddedOrInterested (s : PollSystem κ) (a : κ × ChannelOp) : Prop :=
  ∀ mask, a.2.mask? (s.channel a.1).events_ = some mask →
    (s.channel a.1).index_ = .kAdded ∨ mask ≠ Channel.kNoneEvent

/-- **One call**: the law holds of it exactly if it stays out of the bad square. -/
theorem watchedIffInterested_iff (h : s.Agrees) (hsole : calls.enabled s a) :
    s.WatchedIffInterested a ↔ s.FindsAddedOrInterested a := by
  have hat := h.at_sole hsole
  cases hm : a.2.mask? (s.channel a.1).events_ with
  | none =>
    have hremove : a.2 = .remove := by
      cases hop : a.2 <;> simp [hop, ChannelOp.mask?] at hm ⊢
    simp [WatchedIffInterested, FindsAddedOrInterested, hremove, ChannelOp.mask?]
  | some mask =>
    have hremove : a.2 ≠ .remove := by
      intro hop
      simp [hop, ChannelOp.mask?] at hm
    simp only [WatchedIffInterested, FindsAddedOrInterested, calls,
      Function.update_self, ChannelOp.fd_call,
      ChannelOp.interest_call hat hm, ChannelOp.events_call, hm, Option.getD_some,
      Option.some.injEq, forall_eq']
    by_cases hi : (s.channel a.1).index_ = .kAdded <;>
      by_cases hz : mask = Channel.kNoneEvent <;> simp [hi, hz, hremove]

/-! ## `disableAll` twice -/

/-- What `disableAll` does: it flips the registration. -/
theorem next_disableAll (h : s.Agrees) (hsole : s.Sole ch) :
    (calls.next s (ch, .disableAll)).poller.interest (s.channel ch).fd_ =
      (if (s.channel ch).index_ = .kAdded then none else some ⟨Channel.kNoneEvent, ch⟩) ∧
    ((calls.next s (ch, .disableAll)).channel ch).index_ =
      (if (s.channel ch).index_ = .kAdded then .kDeleted else .kAdded) ∧
    ((calls.next s (ch, .disableAll)).channel ch).fd_ = (s.channel ch).fd_ := by
  have hat := h.at_sole hsole
  have hm : ChannelOp.disableAll.mask? (s.channel ch).events_ = some Channel.kNoneEvent := rfl
  refine ⟨?_, ?_, ?_⟩
  · simpa [calls] using ChannelOp.interest_call hat hm
  · simpa [calls] using ChannelOp.index_call hat hm
  · simp [calls, ChannelOp.fd_call]

/-- **`disableAll` is never idempotent**: what a first call does to the registration, a second one
undoes. -/
theorem disableAll_twice_ne (h : s.Agrees) (hsole : s.Sole ch) :
    (calls.run s [(ch, .disableAll), (ch, .disableAll)]).poller ≠
      (calls.run s [(ch, .disableAll)]).poller := by
  have hsole' : (calls.next s (ch, .disableAll)).Sole ch := by
    intro ch' hne hknown
    rw [(next_disableAll h hsole).2.2]
    simp only [Known, calls, Function.update_of_ne hne] at hknown ⊢
    exact hsole ch' hne hknown
  have h' : (calls.next s (ch, .disableAll)).Agrees := h.next hsole
  obtain ⟨hint, hidx, hfd⟩ := next_disableAll h hsole
  obtain ⟨hint', -, -⟩ := next_disableAll h' hsole'
  rw [hfd, hidx] at hint'
  intro heq
  have hsame := congrArg (fun p => p.interest (s.channel ch).fd_) heq
  simp only [Machine.run_cons, Machine.run_nil, hint, hint'] at hsame
  by_cases hi : (s.channel ch).index_ = .kAdded <;> simp [hi] at hsame

/-- A run that stays out of the bad square never repeats `disableAll`: the first call leaves the
channel unregistered, where the second is not allowed. -/
theorem not_disableAll_twice (h : s.Agrees) (hsole : s.Sole ch) :
    ¬ calls.Along FindsAddedOrInterested s [(ch, .disableAll), (ch, .disableAll)] := by
  rintro ⟨hfirst, hsecond, -⟩
  have hadded : (s.channel ch).index_ = .kAdded :=
    (hfirst _ rfl).resolve_right (absurd rfl)
  have hadded' := (hsecond _ rfl).resolve_right (absurd rfl)
  rw [(next_disableAll h hsole).2.1, if_pos hadded] at hadded'
  cases hadded'

/-! ## The law, exactly -/

/-- **A run keeps the law exactly if every update finds its channel registered or leaves it a
non-empty mask**; and no state lets a repeated `disableAll` go unnoticed. -/
theorem lawful_iff (hfresh : Fresh s) (hvalid : calls.Valid s as) :
    (Lawful s as ↔ calls.Along FindsAddedOrInterested s as) ∧
    ∀ ch, (calls.run s as).Sole ch →
      (calls.run s (as ++ [(ch, .disableAll), (ch, .disableAll)])).poller ≠
        (calls.run s (as ++ [(ch, .disableAll)])).poller := by
  have hstep : ∀ (s : PollSystem κ) (a : κ × ChannelOp), s.Agrees → calls.enabled s a →
      (calls.next s a).Agrees := fun _ _ hs ha => hs.next ha
  have hlaw := Machine.along_congr_of_invariant hstep
    (fun _ _ hs ha => watchedIffInterested_iff hs ha) hvalid hfresh.agrees
  refine ⟨⟨fun h => hlaw.mp h.1, fun h => ⟨hlaw.mpr h, fun bs ch hprefix => ?_⟩⟩,
    fun ch hsole => ?_⟩
  · have hpair := (Machine.along_append.mp (hvalid.of_prefix hprefix))
    have hbad := (Machine.along_append.mp (h.of_prefix hprefix)).2
    exact absurd hbad (not_disableAll_twice (hpair.1.invariant hstep hfresh.agrees) hpair.2.1)
  · simp only [Machine.run_append]
    exact disableAll_twice_ne (hvalid.invariant hstep hfresh.agrees) hsole

/-- A registered channel keeps the law while it is switched off and on. -/
theorem lawful_switch :
    Lawful (⟨fun _ => .new 7, .new⟩ : PollSystem Unit)
      [((), .enableReading), ((), .disableAll), ((), .enableWriting)] :=
  ((lawful_iff ⟨rfl, fun _ => rfl⟩
    (by simp [Machine.Valid, Sole, calls])).1.mpr (by
      simp [FindsAddedOrInterested, ChannelOp.mask?]; decide))

/-- **A channel never enabled breaks it**: its `disableAll` registers it with an empty mask. -/
theorem not_lawful_fresh :
    Fresh (⟨fun _ => .new 7, .new⟩ : PollSystem Unit) ∧
    calls.Valid (⟨fun _ => .new 7, .new⟩ : PollSystem Unit) [((), .disableAll)] ∧
    (calls.run (⟨fun _ => .new 7, .new⟩ : PollSystem Unit)
      [((), .disableAll)]).poller.interest 7 = some ⟨Channel.kNoneEvent, ()⟩ ∧
    ¬ Lawful (⟨fun _ => .new 7, .new⟩ : PollSystem Unit) [((), .disableAll)] := by
  refine ⟨⟨rfl, fun _ => rfl⟩, by simp [Machine.Valid, Sole, calls], rfl, fun h => ?_⟩
  have hlaw := h.1.1 (by decide)
  exact absurd hlaw (by decide)

end PollSystem

end Mymuduo
