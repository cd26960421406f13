import Mymuduo.Poller.Agreement

/-!
# Poller/Knows — what a poller has under a channel's address

Two channels with one descriptor spoil the agreement of `AgreesAt`, but not all of it: whatever
stands in `channels_` or the interest set under a channel's address was put there for that channel,
and its index says so.  This half needs nothing of the descriptors, and it is the half that matters
when the channel goes away: a channel that is new to its poller leaves no pointer behind.
-/

namespace Mymuduo

namespace EPollPoller

variable {κ : Type*} {p : EPollPoller κ} {self other : κ} {c c' : Channel} {op : CtlOp} {fd : ℤ}
  {ev : EpollEvent κ}

@[simp] theorem update_channels : (p.update self c op).channels_ = p.channels_ := by
  unfold update
  split <;> rfl

/-- After `EPOLL_CTL_DEL` the descriptor is unregistered, whether or not the call was refused. -/
theorem update_del_interest : (p.update self c .EPOLL_CTL_DEL).interest =
    Function.update p.interest c.fd_ none := by
  cases h : p.interest c.fd_ with
  | none => simp [update, epoll_ctl, h]
  | some e => simp [update, epoll_ctl, h]

/-- Every operation registers the channel, or adds nothing. -/
theorem update_interest (h : (p.update self c op).interest fd = some ev) :
    p.interest fd = some ev ∨ fd = c.fd_ ∧ ev.ptr = self := by
  unfold update at h
  split at h
  case h_2 => exact .inl h
  case h_1 interest hctl =>
    by_cases hfd : fd = c.fd_
    · unfold epoll_ctl at hctl
      split at hctl <;> cases hctl <;> simp [hfd] at h ⊢ <;> exact .inr (h ▸ rfl)
    · unfold epoll_ctl at hctl
      split at hctl <;> cases hctl <;> exact .inl (by simpa [hfd] using h)

/-- Whatever the poller has under a channel's address, the channel knows of. -/
structure Knows (p : EPollPoller κ) (ch : κ) (c : Channel) : Prop where
  channels : ∀ fd, p.channels_ fd = some ch → fd = c.fd_ ∧ c.index_ ≠ .kNew
  interest : ∀ fd ev, p.interest fd = some ev → ev.ptr = ch → fd = c.fd_ ∧ c.index_ = .kAdded

theorem Knows.congr (h : p.Knows self c) (hfd : c'.fd_ = c.fd_) (hindex : c'.index_ = c.index_) :
    p.Knows self c' := by
  obtain ⟨hchannels, hinterest⟩ := h
  constructor
  · rwa [hfd, hindex]
  · rwa [hfd, hindex]

/-- A registering operation on a channel that is marked so. -/
theorem Knows.update_set (hchannels : ∀ fd, p.channels_ fd = some self → fd = c.fd_)
    (hinterest : ∀ fd ev, p.interest fd = some ev → ev.ptr = self → fd = c.fd_)
    (hadded : c.index_ = .kAdded) : (p.update self c op).Knows self c := by
  refine ⟨fun fd hfd => ⟨hchannels fd (by simpa using hfd), by simp [hadded]⟩,
    fun fd ev hev hself => ⟨?_, hadded⟩⟩
  obtain hold | ⟨hfd, -⟩ := update_interest hev
  · exact hinterest fd ev hold hself
  · exact hfd

/-- `EPOLL_CTL_DEL` on a channel leaves no entry under its address. -/
theorem Knows.update_del (h : p.Knows self c) (fd : ℤ) (ev : EpollEvent κ)
    (hev : (p.update self c .EPOLL_CTL_DEL).interest fd = some ev) : ev.ptr ≠ self := by
  intro hself
  rw [update_del_interest] at hev
  by_cases hfd : fd = c.fd_
  · simp [hfd] at hev
  · exact hfd (h.interest fd ev (by simpa [hfd] using hev) hself).1

theorem Knows.updateChannel (h : p.Knows self c) :
    (p.updateChannel self c).1.Knows self (p.updateChannel self c).2 := by
  unfold EPollPoller.updateChannel
  split
  · -- whatever joins `channels_` does so at the channel's descriptor
    refine Knows.update_set (fun fd hfd => ?_) (fun fd ev hev hself => ?_) rfl
    · by_cases hat : fd = c.fd_
      · exact hat
      · refine (h.channels fd ?_).1
        split at hfd
        · simpa [hat] using hfd
        · exact hfd
    · refine (h.interest fd ev ?_ hself).1
      split at hev <;> exact hev
  case isFalse hindex =>
    have hadded : c.index_ = .kAdded := by
      cases hi : c.index_ <;> simp_all
    split
    · exact ⟨fun fd hfd => ⟨(h.channels fd (by simpa using hfd)).1, by simp [Channel.set_index]⟩,
        fun fd ev hev hself => absurd hself (h.update_del fd ev hev)⟩
    · exact Knows.update_set (fun fd hfd => (h.channels fd hfd).1)
        (fun fd ev hev hself => (h.interest fd ev hev hself).1) hadded

theorem Knows.removeChannel (h : p.Knows self c) :
    (p.removeChannel self c).1.Knows self (p.removeChannel self c).2 := by
  have hchannels : ∀ fd, Function.update p.channels_ c.fd_ none fd ≠ some self := by
    intro fd hfd
    by_cases hat : fd = c.fd_
    · simp [hat] at hfd
    · exact hat (h.channels fd (by simpa [hat] using hfd)).1
  by_cases hi : c.index_ = .kAdded
  · simp only [EPollPoller.removeChannel, hi, if_true]
    refine ⟨fun fd hfd => absurd (by simpa using hfd) (hchannels fd), fun fd ev hev hself => ?_⟩
    refine absurd hself (Knows.update_del ?_ fd ev hev)
    exact ⟨fun fd hfd => absurd hfd (hchannels fd), h.interest⟩
  · simp only [EPollPoller.removeChannel, hi, if_false]
    exact ⟨fun fd hfd => absurd hfd (hchannels fd),
      fun fd ev hev hself => absurd (h.interest fd ev hev hself).2 hi⟩

/-- A call on one channel adds nothing under another's address. -/
theorem updateChannel_channels (h : (p.updateChannel self c).1.channels_ fd = some other) :
    other = self ∨ p.channels_ fd = some other := by
  unfold updateChannel at h
  split at h
  · rw [update_channels] at h
    split at h
    · by_cases hat : fd = c.fd_
      · exact .inl (by simpa [hat, eq_comm] using h)
      · exact .inr (by simpa [hat] using h)
    · exact .inr h
  · split at h <;> exact .inr (by simpa using h)

theorem updateChannel_interest (h : (p.updateChannel self c).1.interest fd = some ev) :
    ev.ptr = self ∨ p.interest fd = some ev := by
  have hset : ∀ {q : EPollPoller κ} {c op}, (q.update self c op).interest fd = some ev →
      q.interest = p.interest → ev.ptr = self ∨ p.interest fd = some ev := by
    intro q c op hev hq
    obtain hold | ⟨-, hself⟩ := update_interest hev
    · exact .inr (hq ▸ hold)
    · exact .inl hself
  unfold updateChannel at h
  split at h
  · exact hset h (by split <;> rfl)
  · split at h <;> exact hset h rfl

theorem removeChannel_channels (h : (p.removeChannel self c).1.channels_ fd = some other) :
    p.channels_ fd = some other := by
  have h' : Function.update p.channels_ c.fd_ none fd = some other := by
    unfold removeChannel at h
    split at h <;> simpa using h
  by_cases hat : fd = c.fd_
  · simp [hat] at h'
  · simpa [hat] using h'

theorem removeChannel_interest (h : (p.removeChannel self c).1.interest fd = some ev) :
    ev.ptr = self ∨ p.interest fd = some ev := by
  unfold removeChannel at h
  split at h
  · obtain hold | ⟨-, hself⟩ := update_interest h
    · exact .inr hold
    · exact .inl hself
  · exact .inr h

/-! ### At another descriptor -/

/-- Two pollers have the same at a descriptor. -/
structure SameAt (fd : ℤ) (p p' : EPollPoller κ) : Prop where
  interest : p'.interest fd = p.interest fd
  channels : p'.channels_ fd = p.channels_ fd

theorem SameAt.refl : SameAt fd p p := ⟨rfl, rfl⟩

theorem SameAt.trans {p' p'' : EPollPoller κ} (h : SameAt fd p p') (h' : SameAt fd p' p'') :
    SameAt fd p p'' :=
  ⟨h'.interest.trans h.interest, h'.channels.trans h.channels⟩

/-! ### A descriptor that is closed -/

@[simp] theorem closed_new (fd : ℤ) : (new : EPollPoller κ).closed fd = new := by
  simp [closed, new]

/-- Closing a descriptor adds nothing to the interest set. -/
theorem interest_of_closed {fd' : ℤ} (h : (p.closed fd').interest fd = some ev) :
    p.interest fd = some ev := by
  by_cases hat : fd = fd'
  · simp [closed, hat] at h
  · simpa [closed, hat] using h

theorem Knows.closed (h : p.Knows self c) (fd : ℤ) : (p.closed fd).Knows self c :=
  ⟨h.channels, fun fd' ev hev => h.interest fd' ev (interest_of_closed hev)⟩

theorem closed_sameAt {fd' : ℤ} (hfd : fd ≠ fd') : SameAt fd p (p.closed fd') :=
  ⟨Function.update_of_ne hfd .., rfl⟩

theorem update_interest_ne (hfd : fd ≠ c.fd_) :
    (p.update self c op).interest fd = p.interest fd := by
  unfold update
  split
  case h_1 interest hctl =>
    unfold epoll_ctl at hctl
    split at hctl <;> cases hctl <;> exact Function.update_of_ne hfd ..
  case h_2 => rfl

theorem updateChannel_sameAt (hfd : fd ≠ c.fd_) : SameAt fd p (p.updateChannel self c).1 := by
  unfold updateChannel
  split
  · refine ⟨?_, ?_⟩
    · rw [update_interest_ne (by exact hfd)]
      split <;> rfl
    · rw [update_channels]
      split
      · exact Function.update_of_ne hfd ..
      · rfl
  · split
    · exact ⟨update_interest_ne hfd, by rw [update_channels]⟩
    · exact ⟨update_interest_ne hfd, by rw [update_channels]⟩

theorem removeChannel_sameAt (hfd : fd ≠ c.fd_) : SameAt fd p (p.removeChannel self c).1 := by
  unfold removeChannel
  split
  · refine ⟨update_interest_ne (by exact hfd), ?_⟩
    rw [update_channels]
    exact Function.update_of_ne hfd ..
  · exact ⟨rfl, Function.update_of_ne hfd ..⟩

end EPollPoller

namespace ChannelOp

open EPollPoller

variable {κ : Type*} {op : ChannelOp} {p : EPollPoller κ} {self other : κ} {c c' : Channel} {fd : ℤ}
  {ev : EpollEvent κ}

theorem call_channels (h : (op.call c self p).1.channels_ fd = some other) :
    other = self ∨ p.channels_ fd = some other := by
  cases hm : op.mask? c.events_ with
  | some mask =>
    rw [call_of_mask hm] at h
    exact updateChannel_channels h
  | none =>
    rw [call_of_none hm] at h
    exact .inr (removeChannel_channels h)

theorem call_interest (h : (op.call c self p).1.interest fd = some ev) :
    ev.ptr = self ∨ p.interest fd = some ev := by
  cases hm : op.mask? c.events_ with
  | some mask =>
    rw [call_of_mask hm] at h
    exact updateChannel_interest h
  | none =>
    rw [call_of_none hm] at h
    exact removeChannel_interest h

/-- **A call keeps what the poller has of its channel**, -/
theorem call_knows (h : p.Knows self c) :
    (op.call c self p).1.Knows self (op.call c self p).2 := by
  cases hm : op.mask? c.events_ with
  | some mask =>
    rw [call_of_mask hm]
    have hmask : p.Knows self { c with events_ := mask } := h.congr rfl rfl
    exact hmask.updateChannel
  | none =>
    rw [call_of_none hm]
    exact h.removeChannel

/-- and of every other. -/
theorem call_knows_other (h : p.Knows other c') (hne : other ≠ self) :
    (op.call c self p).1.Knows other c' :=
  ⟨fun fd hfd => h.channels fd ((call_channels hfd).resolve_left hne),
    fun fd ev hev hptr =>
      h.interest fd ev ((call_interest hev).resolve_left (hptr.trans_ne hne)) hptr⟩

/-- **A call touches nothing at another descriptor**, whether or not the kernel refuses it. -/
theorem call_sameAt (hfd : fd ≠ c.fd_) : SameAt fd p (op.call c self p).1 := by
  cases hm : op.mask? c.events_ with
  | some mask =>
    rw [call_of_mask hm]
    exact updateChannel_sameAt hfd
  | none =>
    rw [call_of_none hm]
    exact removeChannel_sameAt hfd

/-- The index tells `remove` from the rest: only a removed channel is new. -/
theorem index_call_eq_kNew : (op.call c self p).2.index_ = .kNew ↔ op = .remove := by
  cases hm : op.mask? c.events_ with
  | some mask =>
    rw [call_of_mask hm]
    refine iff_of_false ?_ (by rintro rfl; cases hm)
    unfold updateChannel
    split
    · simp [Channel.set_index]
    case isFalse hindex =>
      split
      · simp [Channel.set_index]
      · exact fun h => hindex (.inl h)
  | none =>
    rw [call_of_none hm]
    exact iff_of_true rfl (by cases op <;> simp [mask?] at hm ⊢)

end ChannelOp

end Mymuduo
