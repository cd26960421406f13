import Mathlib.Data.Finset.Card
import Mathlib.Tactic.Ring
import Mymuduo.Machinery.Refinement
import Mymuduo.Machinery.Region
import Mymuduo.Poller.Model

/-!
# Poller/EventArray — `EPollPoller::poll` and the array it hands to `epoll_wait`

`poll` offers the kernel `events_`, hands over the channels of the entries it fills, and doubles the
array when all of them were filled.  A full return means that as many descriptors were ready as the
array has entries, so doubling ends at twice the number of those registered:

    events_.size() = kInitEventListSize * 2 ^ k ≤ max kInitEventListSize (2 * F)

which an `int` can count as long as `F < 2 ^ 30`.
-/

namespace Mymuduo

open Machinery

/-- The answer to `::epoll_wait`: an error, or the entries filled. -/
inductive WaitResult (κ : Type*)
  | fail (errno : Errno)
  | events (evs : List (EpollEvent κ))
  deriving DecidableEq, Repr

/-- The entries of an answer. -/
def WaitResult.entries {κ : Type*} : WaitResult κ → List (EpollEvent κ)
  | fail _ => []
  | events evs => evs

/-- The channels by address, and the caller's `activeChannels`. -/
structure Channels (κ : Type*) where
  channel : κ → Channel
  activeChannels : List κ

/-- `events_`.  An entry nothing has been written to points nowhere. -/
structure EventArray (κ : Type*) where
  events_ : List (Option (EpollEvent κ))

namespace EventArray

variable {κ : Type*}

def kInitEventListSize : ℕ := 16

/-- The array as the constructor leaves it. -/
def new : EventArray κ := ⟨List.replicate kInitEventListSize none⟩

/-- `events_.size()`. -/
def size (a : EventArray κ) : size_t := .ofNat 64 a.events_.length

/-- `static_cast<int>(events_.size())`, the most entries `epoll_wait` may fill. -/
def maxevents (a : EventArray κ) : ℤ := (a.size.setWidth 32).toInt

variable [DecidableEq κ]

/-- One round of `fillActiveChannels`. -/
def handOver (h : Channels κ) (event : EpollEvent κ) : Channels κ where
  channel := Function.update h.channel event.ptr ((h.channel event.ptr).set_revents event.events)
  activeChannels := h.activeChannels ++ [event.ptr]

/-- `fillActiveChannels`, from entry `i` on; an entry outside `events_` cannot be read, and one that
points nowhere has no channel. -/
def fillActiveChannels (a : EventArray κ) : ℕ → ℕ → Channels κ → Option (Channels κ)
  | _, 0, h => some h
  | i, numEvents + 1, h => do
      let event ← a.events_[i]?.join
      a.fillActiveChannels (i + 1) numEvents (handOver h event)

/-- `poll`, with the kernel's answer; an error is only logged. -/
def poll (a : EventArray κ) (answer : WaitResult κ) (h : Channels κ) :
    Option (Channels κ × EventArray κ) :=
  match answer with
  | .fail _ => some (h, a)
  | .events evs => do
      let events_ ← Region.write a.events_ 0 (evs.map some)
      let a := { a with events_ }
      let numsEvents : BitVec 32 := .ofNat 32 evs.length
      if 0 < numsEvents.toInt then
        let h ← a.fillActiveChannels 0 numsEvents.toInt.toNat h
        if numsEvents.signExtend 64 = a.size then
          return (h, { a with events_ := Region.resize events_ (a.size * 2).toNat none })
        else return (h, a)
      else return (h, a)

/-! ## Runs of calls -/

/-- A call of `poll`: the descriptors registered then, those of them that are ready, the kernel's
answer, and the channels with the list the caller passes. -/
structure PollCall (κ : Type*) where
  registered : Finset ℤ
  ready : Finset ℤ
  answer : WaitResult κ
  channels : Channels κ

def step (a : EventArray κ) (c : PollCall κ) : Option (Channels κ × EventArray κ) :=
  a.poll c.answer c.channels

omit [DecidableEq κ] in
/-- **What `epoll_wait` is assumed to do**, with at most `F` descriptors registered: it fails, or
fills no more entries than it is offered and than are ready, each for another channel. -/
def Answers (F : ℕ) (a : EventArray κ) (c : PollCall κ) : Prop :=
  c.ready ⊆ c.registered ∧ c.registered.card ≤ F ∧
    (c.answer.entries.length : ℤ) ≤ max 0 a.maxevents ∧
    c.answer.entries.length ≤ c.ready.card ∧ (c.answer.entries.map EpollEvent.ptr).Nodup

instance (F : ℕ) (a : EventArray κ) (c : PollCall κ) : Decidable (Answers F a c) :=
  inferInstanceAs (Decidable (_ ∧ _))

/-! ## Handing over -/

/-- **The channels of the entries are appended, in order.** -/
theorem activeChannels_foldl (evs : List (EpollEvent κ)) (h : Channels κ) :
    (evs.foldl handOver h).activeChannels = h.activeChannels ++ evs.map EpollEvent.ptr := by
  induction evs generalizing h with
  | nil => simp
  | cons e evs ih => simp [ih, handOver]

/-- A channel no entry is for keeps its `revents_`. -/
theorem channel_foldl_of_notMem {evs : List (EpollEvent κ)} {x : κ}
    (hx : x ∉ evs.map EpollEvent.ptr) (h : Channels κ) :
    (evs.foldl handOver h).channel x = h.channel x := by
  induction evs generalizing h with
  | nil => rfl
  | cons e evs ih =>
    rw [List.map_cons, List.mem_cons, not_or] at hx
    rw [List.foldl_cons, ih hx.2]
    exact Function.update_of_ne hx.1 _ _

/-- **The others have the mask returned for them.** -/
theorem channel_foldl_of_mem {evs : List (EpollEvent κ)} {e : EpollEvent κ} (he : e ∈ evs)
    (hnodup : (evs.map EpollEvent.ptr).Nodup) (h : Channels κ) :
    (evs.foldl handOver h).channel e.ptr = (h.channel e.ptr).set_revents e.events := by
  induction evs generalizing h with
  | nil => cases he
  | cons e' evs ih =>
    rw [List.map_cons, List.nodup_cons] at hnodup
    obtain rfl | he := List.mem_cons.mp he
    · rw [List.foldl_cons, channel_foldl_of_notMem hnodup.1]
      exact Function.update_self ..
    · have hne : e.ptr ≠ e'.ptr := by
        intro heq
        exact hnodup.1 (heq ▸ List.mem_map_of_mem he)
      rw [List.foldl_cons, ih he hnodup.2]
      simp only [handOver, Function.update_of_ne hne]

/-- `fillActiveChannels` reads the entries that have been filled, and hands each over. -/
theorem fillActiveChannels_eq {a : EventArray κ} (evs : List (EpollEvent κ)) (i : ℕ)
    (h : Channels κ) (hfilled : ∀ (j : ℕ) (e : EpollEvent κ), evs[j]? = some e →
      a.events_[i + j]? = some (some e)) :
    a.fillActiveChannels i evs.length h = some (evs.foldl handOver h) := by
  induction evs generalizing i h with
  | nil => rfl
  | cons e evs ih =>
    have hfirst : a.events_[i]? = some (some e) := hfilled 0 e rfl
    have hrest : ∀ (j : ℕ) (e : EpollEvent κ), evs[j]? = some e →
        a.events_[i + 1 + j]? = some (some e) := by
      intro j e' hj
      rw [Nat.add_assoc, Nat.add_comm 1 j]
      exact hfilled (j + 1) e' hj
    rw [List.length_cons, fillActiveChannels, hfirst]
    exact ih (i + 1) _ hrest

/-! ## The size of the array -/

omit [DecidableEq κ] in
/-- **The size is the initial one, doubled as often as descriptors allow.** -/
structure Sized (F : ℕ) (a : EventArray κ) : Prop where
  power : ∃ k, a.events_.length = kInitEventListSize * 2 ^ k
  bound : a.events_.length ≤ max kInitEventListSize (2 * F)

omit [DecidableEq κ] in
theorem sized_new (F : ℕ) : (new : EventArray κ).Sized F where
  power := ⟨0, List.length_replicate⟩
  bound := le_of_eq_of_le List.length_replicate (le_max_left _ _)

variable {F : ℕ} {a a' : EventArray κ} {c : PollCall κ}

omit [DecidableEq κ] in
theorem Sized.lt (ha : a.Sized F) (hF : F < 2 ^ 30) : a.events_.length < 2 ^ 31 := by
  have := ha.bound
  unfold kInitEventListSize at this
  omega

omit [DecidableEq κ] in
/-- **The cast to `int` is exact, and positive.** -/
theorem Sized.maxevents_eq (ha : a.Sized F) (hF : F < 2 ^ 30) :
    a.maxevents = a.events_.length ∧ 0 < a.maxevents := by
  have hlt := ha.lt hF
  have hcast : a.maxevents = a.events_.length := by
    have hnat : (a.size.setWidth 32).toNat = a.events_.length := by
      rw [BitVec.toNat_setWidth, size, BitVec.toNat_ofNat]
      omega
    rw [maxevents, BitVec.toInt_eq_toNat_of_lt (by omega), hnat]
  refine ⟨hcast, ?_⟩
  obtain ⟨k, hk⟩ := ha.power
  have hpos : 0 < a.events_.length := by
    rw [hk]
    exact Nat.mul_pos (by decide) (Nat.two_pow_pos k)
  omega

/-! ## One call -/

omit [DecidableEq κ] in
/-- The array once the kernel has filled its first entries. -/
theorem write_spec {evs : List (EpollEvent κ)} (hfit : evs.length ≤ a.events_.length) :
    ∃ m, Region.write a.events_ 0 (evs.map some) = some m ∧ m.length = a.events_.length ∧
      ∀ (j : ℕ) (e : EpollEvent κ), evs[j]? = some e → m[0 + j]? = some (some e) := by
  have hwrite : Region.write a.events_ 0 (evs.map some) =
      some (a.events_.take 0 ++ evs.map some ++ a.events_.drop (0 + (evs.map some).length)) :=
    Region.write_eq (by simpa using hfit)
  refine ⟨_, hwrite, Region.length_write hwrite, fun j e hj => ?_⟩
  have hlt : j < (evs.map some).length := by
    rw [List.length_map]
    exact (List.getElem?_eq_some_iff.mp hj).1
  rw [Nat.zero_add j, List.take_zero, List.nil_append, List.getElem?_append_left hlt,
    List.getElem?_map, hj]
  rfl

/-- **A return of `epoll_wait`**: the entries filled are handed over, and a full array doubled. -/
theorem poll_events {evs : List (EpollEvent κ)} (hfit : evs.length ≤ a.events_.length)
    (hpos : 0 < a.events_.length) (hlt : a.events_.length < 2 ^ 31) (h : Channels κ) :
    ∃ m, m.length = a.events_.length ∧ a.poll (.events evs) h = some (evs.foldl handOver h,
      ⟨if evs.length = a.events_.length then Region.resize m (2 * a.events_.length) none
        else m⟩) := by
  obtain ⟨m, hwrite, hlength, hfilled⟩ := write_spec hfit
  have hnums : (BitVec.ofNat 32 evs.length).toNat = evs.length := by
    rw [BitVec.toNat_ofNat, Nat.mod_eq_of_lt (by omega)]
  have hint : (BitVec.ofNat 32 evs.length).toInt = evs.length := by
    rw [BitVec.toInt_eq_toNat_of_lt (by omega), hnums]
  have hsize : (size ⟨m⟩ : size_t).toNat = a.events_.length := by
    rw [size, BitVec.toNat_ofNat, hlength, Nat.mod_eq_of_lt (by omega)]
  have hfull : (BitVec.ofNat 32 evs.length).signExtend 64 = size ⟨m⟩ ↔
      evs.length = a.events_.length := by
    rw [← BitVec.toNat_inj, toNat_signExtend (by omega), hnums, hsize]
  have hdouble : (size ⟨m⟩ * 2 : size_t).toNat = 2 * a.events_.length := by
    rw [BitVec.toNat_mul, hsize]
    change a.events_.length * 2 % 2 ^ 64 = _
    omega
  have hfill := fillActiveChannels_eq (a := ⟨m⟩) evs 0 h hfilled
  refine ⟨m, hlength, ?_⟩
  simp only [poll, hwrite, Option.bind_eq_bind, Option.bind_some, hint, Int.natCast_pos,
    Int.toNat_natCast, hfill, hfull, hdouble]
  by_cases hsome : 0 < evs.length
  · rw [if_pos hsome]
    split <;> rfl
  · have hall : evs.length ≠ a.events_.length := by omega
    obtain rfl : evs = [] := List.eq_nil_of_length_eq_zero (Nat.eq_zero_of_not_pos hsome)
    rw [if_neg hsome, if_neg hall]
    rfl

/-- **What a call does**: it hands over the entries filled, and doubles the array if all were. -/
theorem poll_spec (ha : a.Sized F) (hF : F < 2 ^ 30) (hc : a.Answers F c) :
    ∃ a', a.step c = some (c.answer.entries.foldl handOver c.channels, a') ∧ a'.Sized F ∧
      a'.events_.length = if c.answer.entries.length = a.events_.length then
        2 * a.events_.length else a.events_.length := by
  obtain ⟨hready, hregistered, hmax, hentries, -⟩ := hc
  obtain ⟨hcast, hpos⟩ := ha.maxevents_eq hF
  unfold step
  generalize c.answer = answer at hmax hentries ⊢
  cases answer with
  | fail errno =>
    have hnone : ¬ (WaitResult.fail errno : WaitResult κ).entries.length = a.events_.length := by
      change ¬ 0 = a.events_.length
      omega
    exact ⟨a, rfl, ha, (if_neg hnone).symm⟩
  | events evs =>
    change (evs.length : ℤ) ≤ max 0 a.maxevents at hmax
    change evs.length ≤ c.ready.card at hentries
    change ∃ a', a.poll (.events evs) c.channels = some (evs.foldl handOver c.channels, a') ∧
      a'.Sized F ∧ a'.events_.length = if evs.length = a.events_.length then
        2 * a.events_.length else a.events_.length
    have hfew : evs.length ≤ F :=
      le_trans hentries (le_trans (Finset.card_le_card hready) hregistered)
    have hfit : evs.length ≤ a.events_.length := by omega
    obtain ⟨m, hlength, hpoll⟩ := poll_events hfit (by omega) (ha.lt hF) c.channels
    refine ⟨_, hpoll, ?_⟩
    split
    · next hall =>
      have hdoubled : (Region.resize m (2 * a.events_.length) none).length =
          2 * a.events_.length := Region.length_resize _ _ _
      obtain ⟨k, hk⟩ := ha.power
      refine ⟨⟨⟨k + 1, ?_⟩, ?_⟩, hdoubled⟩
      · rw [hdoubled, hk, Nat.pow_succ]
        ring
      · rw [hdoubled]
        exact le_max_of_le_right (by omega)
    · exact ⟨⟨hlength ▸ ha.power, hlength ▸ ha.bound⟩, hlength⟩

/-! ## Any number of calls -/

/-- **The array and the hand-over.**  After any calls and at the next one, with at most `F < 2 ^ 30`
descriptors ever registered at once: `events_` is read inside its size only; the channels of the
entries returned are appended to `activeChannels`, in order and once each, with `revents_` set to
the mask returned and the other channels as they were; the size is a power of two times the initial
one and at most twice `F`, so the cast to `int` is exact and positive; and a call that filled the
array is followed by one with twice the room. -/
theorem poll_hands_over (hF : F < 2 ^ 30) (calls : List (PollCall κ)) (c : PollCall κ)
    (h : Meets step (Answers F) new (calls ++ [c])) :
    ∃ outs a out a', perform step new calls = some (outs, a) ∧ a.step c = some (out, a') ∧
      out.activeChannels = c.channels.activeChannels ++ c.answer.entries.map EpollEvent.ptr ∧
      (∀ e ∈ c.answer.entries,
        out.channel e.ptr = (c.channels.channel e.ptr).set_revents e.events) ∧
      (∀ x, x ∉ c.answer.entries.map EpollEvent.ptr → out.channel x = c.channels.channel x) ∧
      (a.Sized F ∧ a'.Sized F) ∧
      (a.maxevents = a.events_.length ∧ 0 < a.maxevents) ∧
      (c.answer.entries.length = a.events_.length → a'.maxevents = 2 * a.maxevents) := by
  have hstep : ∀ (a : EventArray κ) (c : PollCall κ), a.Sized F → a.Answers F c →
      ∃ out a', a.step c = some (out, a') ∧ a'.Sized F := fun a c ha hc => by
    obtain ⟨a', hcall, ha', -⟩ := poll_spec ha hF hc
    exact ⟨_, a', hcall, ha'⟩
  obtain ⟨outs, a, hrun, ha, hc⟩ := perform_last hstep (sized_new F) h
  obtain ⟨a', hcall, ha', hlength⟩ := poll_spec ha hF hc
  refine ⟨outs, a, _, a', hrun, hcall, activeChannels_foldl _ _,
    fun e he => channel_foldl_of_mem he hc.2.2.2.2 _, fun x hx => channel_foldl_of_notMem hx _,
    ⟨ha, ha'⟩, ha.maxevents_eq hF, fun hall => ?_⟩
  rw [if_pos hall] at hlength
  rw [(ha'.maxevents_eq hF).1, (ha.maxevents_eq hF).1, hlength]
  push_cast
  rfl

/-- Sixteen of twenty descriptors are ready at once: the next call offers thirty-two entries. -/
theorem poll_hands_over_full :
    ∃ outs a out a', perform step (new : EventArray ℕ) [] = some (outs, a) ∧
      a.step ⟨(Finset.range 20).image Nat.cast, (Finset.range 16).image Nat.cast,
        .events ((List.range 16).map fun i => ⟨EPOLLIN, i⟩), ⟨fun i => .new i, []⟩⟩ =
          some (out, a') ∧
      out.activeChannels = List.range 16 ∧ a'.maxevents = 2 * a.maxevents := by
  obtain ⟨outs, a, out, a', hrun, hcall, hactive, -, -, -, -, hfull⟩ :=
    poll_hands_over (F := 20) (by decide) []
      (⟨(Finset.range 20).image Nat.cast, (Finset.range 16).image Nat.cast,
        .events ((List.range 16).map fun i => ⟨EPOLLIN, i⟩), ⟨fun i => .new i, []⟩⟩ : PollCall ℕ)
      (by decide +kernel)
  obtain ⟨-, rfl⟩ := Prod.mk.inj (Option.some.inj hrun)
  exact ⟨outs, _, out, a', hrun, hcall, hactive, hfull rfl⟩

end EventArray

end Mymuduo
