import Mathlib.Data.Fintype.Defs
import Mymuduo.Machinery.Simulation
import Mymuduo.Machinery.Storage
import Mymuduo.TcpConnection.SendContract

/-!
# TcpConnection/Borrow — the bytes of a queued `send`

`send` takes a string by reference.  On the loop's thread `sendInLoop` runs before `send` returns;
on any other what is queued is `buf.c_str()` and `buf.size()`: a pointer into the storage of the
caller's string, which outlives the call.  The session of `TcpConnection/Session` keeps the bytes
themselves in the queue; here the storage they are in comes back:

    storage          the strings and their storage (`Machinery/Storage`)
    lent             the loans of the queued sendInLoop functors, in order

Between its calls a caller does to its strings what it likes: an assignment that fits writes into the
storage, one that does not moves the string to new storage and frees the old, and a string that goes
frees its own.  A functor transmits what was given exactly if none of this has freed the storage lent
and the last of it has left the bytes (`transmits_iff_intact`).
-/

namespace Mymuduo

open Machinery TcpConnection

variable {κ τ ι : Type*}

/-- What a `sendInLoop` functor is bound to: the `pointer` to what held `given`, and
`given.length` bytes of it; `since` is what has been done in that storage, the last first. -/
structure Loan (τ ι : Type*) where
  caller : τ
  pointer : Option ℕ
  given : List Byte
  since : List (Storage.Op ι Byte)

namespace Loan

variable (l : Loan τ ι)

def message : τ × List Byte := (l.caller, l.given)

/-- What the pointer points to; nothing, where the bytes are not all there to be read. -/
def fetch (storage : Storage ι Byte) : Option (List Byte) :=
  (l.pointer.bind storage.contents).bind fun b =>
    if l.given.length ≤ b.length then some (b.take l.given.length) else none

/-- **What the caller did leaves the bytes**: nothing freed the storage, and the last write into it
begins with them. -/
def Kept : Prop :=
  (∀ op ∈ l.since, op.left ≠ none) ∧ ∀ op ∈ l.since.head?, ∃ b ∈ op.left, l.given <+: b

instance (b : List Byte) (o : Option (List Byte)) : Decidable (∃ w ∈ o, b <+: w) :=
  match o with
  | none => isFalse nofun
  | some w => decidable_of_iff (b <+: w) (by simp)

instance : Decidable l.Kept :=
  inferInstanceAs (Decidable ((∀ op ∈ l.since, op.left ≠ none) ∧
    ∀ op ∈ l.since.head?, ∃ b ∈ op.left, l.given <+: b))

/-- What operations make of a storage with `b` in it. -/
def now (b : List Byte) : List (Storage.Op ι Byte) → Option (List Byte)
  | [] => some b
  | op :: ops => (now b ops).bind fun _ => op.left

variable {l}

theorem now_ne_none_iff (b : List Byte) (ops : List (Storage.Op ι Byte)) :
    now b ops ≠ none ↔ ∀ op ∈ ops, op.left ≠ none := by
  induction ops with
  | nil => simp [now]
  | cons op ops ih =>
    rw [List.forall_mem_cons, ← ih, now]
    cases now b ops <;> simp

theorem kept_iff {b : List Byte} (hb : l.given <+: b) :
    l.Kept ↔ ∃ w ∈ now b l.since, l.given <+: w := by
  rw [Kept, ← now_ne_none_iff b]
  cases l.since with
  | nil => simpa [now] using hb
  | cons op ops =>
    rw [now]
    cases now b ops with
    | none => simp
    | some w =>
      simp only [Option.bind_some, List.head?_cons, Option.mem_some_iff, forall_eq']
      refine ⟨And.right, fun h => ⟨?_, h⟩⟩
      obtain ⟨w, hw, -⟩ := h
      exact Option.ne_none_iff_exists'.mpr ⟨w, hw⟩

theorem fetch_eq_given_iff (storage : Storage ι Byte) : l.fetch storage = some l.given ↔
    ∃ b ∈ l.pointer.bind storage.contents, l.given <+: b := by
  rw [fetch]
  cases l.pointer.bind storage.contents with
  | none => simp
  | some b =>
    simp only [Option.bind_some, Option.mem_some_iff, exists_eq_left']
    split
    · next hle => rw [Option.some_inj, eq_comm, List.prefix_iff_eq_take]
    · next hle => exact iff_of_false nofun fun hp => hle hp.length_le

variable [DecidableEq ι]

/-- An operation on a string, where it is in the storage lent. -/
def after (storage : Storage ι Byte) (op : Storage.Op ι Byte) (l : Loan τ ι) : Loan τ ι :=
  if storage.worksIn op = l.pointer then { l with since := op :: l.since } else l

end Loan

/-- A session with its callers' strings;
`arg` is the string of the call of `send` a thread is at. -/
structure Lending (κ τ ι : Type*) where
  session : Session κ τ
  storage : Storage ι Byte
  arg : τ → ι
  lent : List (Loan τ ι)

namespace Lending

/-- The actions.  A string passed to `send` holds `data` and may have storage behind it.  `found` is
what a functor finds in memory where its bytes are gone; the callers `edit` any string no `send` is
at. -/
inductive Action (κ τ ι : Type*)
  | step (a : Session.Action κ τ)
  | send (t : τ) (cell : ι) (data : List Byte)
  | functor (k : Answer) (found : List Byte)
  | edit (op : Storage.Op ι Byte)

/-- There are no strings yet. -/
def new (conn : TcpConnection κ τ) (arg : τ → ι) : Lending κ τ ι := ⟨.new conn, .empty, arg, []⟩

/-- The session's actions that read no string. -/
def isPlain : Session.Action κ τ → Bool
  | .send _ _ | .functor _ => false
  | .connectEstablished | .sendRun _ _ | .shutdown _ | .shutdownStore _ | .shutdownRun _ | .poll _
  | .dispatch | .task _ | .ret | .removeConnection | .destroy _ | .others _ | .consume _ => true

/-- The message of the first functor. -/
def first (s : Session κ τ) : List (τ × List Byte) :=
  s.conn.pendingFunctors_.head?.elim [] PendingFunctor.message

/-- The first functor finds these bytes. -/
def reload (s : Session κ τ) (data : List Byte) : Session κ τ :=
  match s.conn.pendingFunctors_ with
  | .sendInLoop t _ :: fs =>
      { s with conn := { s.conn with pendingFunctors_ := .sendInLoop t data :: fs } }
  | _ => s

variable (p : Lending κ τ ι)

/-- The loan of the first functor, where it is a `sendInLoop`. -/
def loan? : Option (Loan τ ι) := if first p.session = [] then none else p.lent.head?

/-- The session as the first functor finds it. -/
def found (found : List Byte) : Session κ τ :=
  p.loan?.elim p.session fun l =>
    reload p.session ((l.fetch p.storage).getD (found.take l.given.length))

variable [DecidableEq τ] [DecidableEq ι] (threadId_ : τ)

/-- **The session, by reference.** -/
def steps : Machine (Lending κ τ ι) (Action κ τ ι) where
  enabled p
    | .step a => isPlain a = true ∧ (Session.steps threadId_).enabled p.session a
    | .send t cell data => (∃ b ∈ p.storage.read cell, data <+: b) ∧
        (Session.steps threadId_).enabled p.session (.send t data)
    | .functor k found => (Session.steps threadId_).enabled (p.found found) (.functor k)
    | .edit op => ∀ t, (p.session.call t).isSending = true → p.arg t ∉ op.objects
  next p
    | .step a =>
        { p with
          session := (Session.steps threadId_).next p.session a
          lent := p.lent ++ ((p.session.queues threadId_ a).flatMap PendingFunctor.message).map
            fun m => ⟨m.1, p.storage.owned (p.arg m.1), m.2, []⟩ }
    | .send t cell data =>
        { p with
          session := (Session.steps threadId_).next p.session (.send t data)
          arg := Function.update p.arg t cell }
    | .functor k found =>
        { p with
          session := (Session.steps threadId_).next (p.found found) (.functor k)
          lent := p.lent.drop (first p.session).length }
    | .edit op => { p with storage := p.storage.apply op, lent := p.lent.map (·.after p.storage op) }

/-- **The law**: a `sendInLoop` that runs finds what `send` was given. -/
def Transmits (p : Lending κ τ ι) : Action κ τ ι → Prop
  | .functor _ _ => ∀ l ∈ p.loan?, l.fetch p.storage = some l.given
  | _ => True

/-- What the callers did since `send` leaves the bytes of the functor that runs. -/
def Intact (p : Lending κ τ ι) : Action κ τ ι → Prop
  | .functor _ _ => ∀ l ∈ p.loan?, l.Kept
  | _ => True

/-- A caller frees no storage that is lent, and leaves the bytes in it as they are. -/
def Untouched (p : Lending κ τ ι) : Action κ τ ι → Prop
  | .edit op => ∀ l ∈ p.lent, p.storage.worksIn op = l.pointer → ∃ b ∈ op.left, l.given <+: b
  | _ => True

variable {p threadId_}

instance [Fintype τ] [DecidableEq κ] (p : Lending κ τ ι) :
    ∀ a, Decidable ((steps threadId_).enabled p a)
  | .step a => inferInstanceAs (Decidable (_ ∧ (Session.steps threadId_).enabled _ a))
  | .send t _ data =>
      inferInstanceAs (Decidable (_ ∧ (Session.steps threadId_).enabled p.session (.send t data)))
  | .functor k found =>
      inferInstanceAs (Decidable ((Session.steps threadId_).enabled (p.found found) (.functor k)))
  | .edit op => inferInstanceAs
      (Decidable (∀ t, (p.session.call t).isSending = true → p.arg t ∉ op.objects))

instance (p : Lending κ τ ι) : ∀ a, Decidable (p.Untouched a)
  | .edit op => inferInstanceAs (Decidable (∀ l ∈ p.lent,
      p.storage.worksIn op = l.pointer → ∃ b ∈ op.left, l.given <+: b))
  | .step _ | .send _ _ _ | .functor _ _ => isTrue trivial

/-! ## The loans -/

omit [DecidableEq τ] [DecidableEq ι] in
theorem queued_eq_first (s : Session κ τ) : s.conn.queued =
    first s ++ (s.conn.pendingFunctors_.drop 1).flatMap PendingFunctor.message := by
  rw [TcpConnection.queued, first]
  cases s.conn.pendingFunctors_ <;> rfl

omit [DecidableEq τ] [DecidableEq ι] in
/-- What the first functor finds does not matter to the others, nor to the callers. -/
theorem found_rest (p : Lending κ τ ι) (data : List Byte) :
    (p.found data).conn.pendingFunctors_.drop 1 = p.session.conn.pendingFunctors_.drop 1 ∧
      (p.found data).call = p.session.call := by
  rw [found]
  cases p.loan? with
  | none => exact ⟨rfl, rfl⟩
  | some l =>
    rw [Option.elim_some, reload]
    split
    · next hfs => rw [hfs]; exact ⟨rfl, rfl⟩
    · exact ⟨rfl, rfl⟩

/-- What is lent: at `pointer` there is what the callers have made of what `send` was given. -/
structure Lent (storage : Storage ι Byte) (l : Loan τ ι) (b : List Byte) : Prop where
  given : l.given <+: b
  pointed : ∃ n ∈ l.pointer, n < storage.allocated ∧ storage.contents n = Loan.now b l.since

/-- **The loans are those of the queued messages**, each of storage that has since seen what it
records, and a string is not touched while `send` is at it. -/
structure Recorded (p : Lending κ τ ι) : Prop where
  queued : p.session.conn.queued = p.lent.map Loan.message
  sound : p.storage.Sound
  sending : ∀ t data, p.session.call t = .sending data → ∃ b ∈ p.storage.read (p.arg t), data <+: b
  lent : ∀ l ∈ p.lent, ∃ b, Lent p.storage l b

omit [DecidableEq τ] [DecidableEq ι] in
theorem recorded_new {c : TcpConnection κ τ} (hc : c.Constructed) (arg : τ → ι) :
    (new c arg).Recorded := by
  refine ⟨?_, Storage.sound_empty, nofun, nofun⟩
  change c.pendingFunctors_.flatMap PendingFunctor.message = []
  rw [hc.functors]
  rfl

/-- A caller inside `send` was there before, or enters it. -/
theorem sending_of_next {s : Session κ τ} {a : Session.Action κ τ} {t : τ} {data : List Byte}
    (h : ((Session.steps threadId_).next s a).call t = .sending data) :
    s.call t = .sending data ∨ a = .send t data := by
  rw [(Session.next_callers threadId_ s a).1] at h
  obtain h' | h' | ⟨data', rfl, -, h'⟩ | ⟨-, -, h'⟩ | ⟨-, h'⟩ := Session.book_call threadId_ s a t
  · exact .inl (h'.symm.trans h)
  · exact absurd (h'.symm.trans h) nofun
  · obtain rfl : data' = data := Call.sending.inj (h'.symm.trans h)
    exact .inr rfl
  · exact absurd (h'.symm.trans h) nofun
  · exact absurd (h'.symm.trans h) nofun

omit [DecidableEq ι] in
/-- What an action queues is the message of a caller inside `send`. -/
theorem sending_of_queues {s : Session κ τ} {a : Session.Action κ τ} {m : τ × List Byte}
    (h : m ∈ (s.queues threadId_ a).flatMap PendingFunctor.message) :
    s.call m.1 = .sending m.2 := by
  cases a with
  | sendRun t k =>
    cases hc : s.call t with
    | sending data =>
      by_cases ht : t = threadId_
      · subst ht
        simp [Session.queues, hc] at h
      · simp only [Session.queues, hc, ht, if_false, List.flatMap_cons, List.flatMap_nil,
          PendingFunctor.message, List.append_nil, List.mem_singleton] at h
        rw [h]
        exact hc
    | _ => simp [Session.queues, hc] at h
  | shutdownRun t =>
    by_cases ht : t = threadId_ <;> simp [Session.queues, ht, PendingFunctor.message] at h
  | destroy t =>
    by_cases ht : t = threadId_ <;> simp [Session.queues, ht, PendingFunctor.message] at h
  | removeConnection => simp [Session.queues, PendingFunctor.message] at h
  | _ => cases h

omit [DecidableEq τ] [DecidableEq ι] in
/-- A loan is of the storage of the string it is made of. -/
theorem lent_of_read {storage : Storage ι Byte} (h : storage.Sound) {cell : ι} {t : τ}
    {data b : List Byte} (hread : b ∈ storage.read cell) (hp : data <+: b) :
    Lent storage ⟨t, storage.owned cell, data, []⟩ b := by
  obtain ⟨n, hn, hb⟩ := Option.bind_eq_some_iff.mp hread
  exact ⟨hp, n, hn, (h.there cell n hn).1, hb⟩

omit [DecidableEq τ] in
/-- An operation in the storage is recorded, and no other changes it. -/
theorem Lent.after {storage : Storage ι Byte} {l : Loan τ ι} {b : List Byte}
    (h : Lent storage l b) (hs : storage.Sound) (op : Storage.Op ι Byte) :
    Lent (storage.apply op) (l.after storage op) b := by
  obtain ⟨hgiven, n, hn, hlt, hnow⟩ := h
  have hn : l.pointer = some n := hn
  have hlt' := hlt.trans_le (storage.allocated_apply op)
  have hcontents := Storage.contents_apply hlt op
  rw [Loan.after]
  split
  · next hin =>
    refine ⟨hgiven, n, hn, hlt', ?_⟩
    rw [hcontents, if_pos (hin.trans hn), Loan.now, ← hnow]
    -- whose storage it is has it: it has not been freed before
    obtain ⟨i, -, hi⟩ := Option.bind_eq_some_iff.mp (hin.trans hn)
    obtain ⟨w, hw⟩ := Option.ne_none_iff_exists'.mp (hs.there i n hi).2
    rw [hw, Option.bind_some]
  · next hin =>
    refine ⟨hgiven, n, hn, hlt', ?_⟩
    rw [hcontents, if_neg fun h => hin (h.trans hn.symm), hnow]

theorem Recorded.next {a : Action κ τ ι} (h : p.Recorded) (ha : (steps threadId_).enabled p a) :
    ((steps threadId_).next p a).Recorded := by
  cases a with
  | step a =>
    obtain ⟨hplain, -⟩ := ha
    refine ⟨?_, h.sound, fun t data ht => ?_, fun l hl => ?_⟩
    · have htakes : a.takes = 0 := by cases a <;> first | rfl | cases hplain
      change ((Session.steps threadId_).next p.session a).conn.queued = _
      rw [Session.next_queued, htakes, List.drop_zero, ← TcpConnection.queued, h.queued]
      simp [steps, Loan.message, Function.comp_def]
    · obtain ht | rfl := sending_of_next ht
      · exact h.sending t data ht
      · cases hplain
    · obtain hl | hl := List.mem_append.mp hl
      · exact h.lent l hl
      · -- a new loan: its caller is at the end of `send`, its string as it was at the test
        obtain ⟨m, hm, rfl⟩ := List.mem_map.mp hl
        obtain ⟨b, hb, hp⟩ := h.sending m.1 m.2 (sending_of_queues hm)
        exact ⟨b, lent_of_read h.sound hb hp⟩
  | send t cell data =>
    obtain ⟨hread, hready⟩ := ha
    refine ⟨?_, h.sound, fun u data' hu => ?_, h.lent⟩
    · change ((Session.steps threadId_).next p.session (.send t data)).conn.queued = _
      rw [Session.next_queued]
      simpa [Session.Action.takes, Session.queues, TcpConnection.queued, steps] using h.queued
    · have hu : ((Session.steps threadId_).next p.session (.send t data)).call u = .sending data' :=
        hu
      simp only [steps]
      obtain hbefore | hsend := sending_of_next hu
      · have hne : u ≠ t := by
          rintro rfl
          have hidle : p.session.call u = .idle := hready.1.2.1
          cases hbefore.symm.trans hidle
        rw [Function.update_of_ne hne]
        exact h.sending u data' hbefore
      · cases hsend
        rw [Function.update_self]
        exact hread
  | functor k data =>
    obtain ⟨hrest, hcall⟩ := found_rest p data
    refine ⟨?_, h.sound, fun t data' ht => ?_, fun l hl => h.lent l (List.mem_of_mem_drop hl)⟩
    · change ((Session.steps threadId_).next (p.found data) (.functor k)).conn.queued = _
      have hqueued := h.queued
      rw [queued_eq_first] at hqueued
      rw [Session.next_queued, Session.Action.takes, hrest]
      simp only [steps, List.map_drop, ← hqueued, Session.queues, List.drop_left,
        List.flatMap_nil, List.append_nil]
    · obtain ht | hsend := sending_of_next ht
      · exact h.sending t data' (hcall ▸ ht)
      · cases hsend
  | edit op =>
    refine ⟨?_, h.sound.apply op, fun t data ht => ?_, fun l hl => ?_⟩
    · change p.session.conn.queued = (p.lent.map (·.after p.storage op)).map Loan.message
      rw [h.queued, List.map_map]
      exact List.map_congr_left fun l _ => by simp only [Function.comp, Loan.after]; split <;> rfl
    · have hsending : p.session.call t = .sending data := ht
      change ∃ b ∈ (p.storage.apply op).read (p.arg t), data <+: b
      rw [h.sound.read_apply_of_notMem (ha t (by rw [hsending]; rfl))]
      exact h.sending t data hsending
    · obtain ⟨l₀, hl₀, rfl⟩ := List.mem_map.mp hl
      obtain ⟨b, hb⟩ := h.lent l₀ hl₀
      exact ⟨b, hb.after h.sound op⟩

/-! ## By value -/

omit [DecidableEq τ] [DecidableEq ι] in
/-- The loan of a `sendInLoop` that runs is its own. -/
theorem Recorded.loan (h : p.Recorded) {l : Loan τ ι} (hl : l ∈ p.loan?) :
    l ∈ p.lent ∧ ∃ fs, p.session.conn.pendingFunctors_ = .sendInLoop l.caller l.given :: fs := by
  have hqueued := h.queued
  rw [queued_eq_first] at hqueued
  simp only [loan?] at hl
  split at hl
  · cases hl
  · next hfirst =>
    refine ⟨List.mem_of_mem_head? hl, ?_⟩
    obtain ⟨ls, hlent⟩ := List.head?_eq_some_iff.mp hl
    rw [hlent, List.map_cons] at hqueued
    cases hfs : p.session.conn.pendingFunctors_ with
    | nil => exact absurd (by rw [first, hfs]; rfl) hfirst
    | cons f fs =>
      rw [first, hfs] at hqueued hfirst
      cases f with
      | sendInLoop t data =>
        obtain ⟨hmessage, -⟩ := List.cons_eq_cons.mp hqueued
        cases hmessage
        exact ⟨fs, rfl⟩
      | _ => exact absurd rfl hfirst

omit [DecidableEq τ] [DecidableEq ι] in
/-- **A functor finds the bytes exactly if its caller has left them.** -/
theorem Recorded.fetch_iff (h : p.Recorded) {l : Loan τ ι} (hl : l ∈ p.lent) :
    l.fetch p.storage = some l.given ↔ l.Kept := by
  obtain ⟨b, hgiven, n, hn, -, hnow⟩ := h.lent l hl
  rw [Loan.fetch_eq_given_iff, Loan.kept_iff hgiven, hn, Option.bind_some, hnow]

omit [DecidableEq τ] [DecidableEq ι] in
theorem Recorded.transmits_iff (h : p.Recorded) (a : Action κ τ ι) :
    p.Transmits a ↔ p.Intact a := by
  cases a with
  | functor k data => exact forall₂_congr fun l hl => h.fetch_iff (h.loan hl).1
  | _ => exact Iff.rfl

omit [DecidableEq τ] [DecidableEq ι] in
/-- **Bytes left alone are as good as a copy.** -/
theorem Recorded.found_eq {k : Answer} {data : List Byte} (h : p.Recorded)
    (htransmits : p.Transmits (.functor k data)) : p.found data = p.session := by
  rw [found]
  cases hl : p.loan? with
  | none => rfl
  | some l =>
    obtain ⟨-, fs, hfs⟩ := h.loan hl
    rw [Option.elim_some, htransmits l hl, Option.getD_some, reload, hfs]
    cases hs : p.session with
    | mk conn call todo active removals established closed sent ran shutdownReturned =>
      rw [hs] at hfs
      cases conn
      simp_all

/-- The session's action an action is. -/
def label (_ : Lending κ τ ι) : Action κ τ ι → List (Session.Action κ τ)
  | .step a => [a]
  | .send t _ data => [.send t data]
  | .functor k _ => [.functor k]
  | .edit _ => []

/-- **Where the functors find their bytes, the session by reference is the session by value.** -/
def simulation (threadId_ : τ) :
    Simulation ((steps threadId_ : Machine (Lending κ τ ι) (Action κ τ ι)).restrict Transmits)
      (Session.steps threadId_ : Machine (Session κ τ) (Session.Action κ τ)) Recorded where
  view := Lending.session
  label := label
  keeps _ _ h ha := h.next ha.1
  allowed p a h ha := by
    obtain ⟨ha, htransmits⟩ := ha
    cases a with
    | step a => exact ⟨ha.2, trivial⟩
    | send t cell data => exact ⟨ha.2, trivial⟩
    | functor k data => exact ⟨h.found_eq htransmits ▸ ha, trivial⟩
    | edit op => trivial
  square p a h ha := by
    cases a with
    | step a => rfl
    | send t cell data => rfl
    | functor k data =>
      change (Session.steps threadId_).next p.session (.functor k) =
        (Session.steps threadId_).next (p.found data) (.functor k)
      rw [h.found_eq ha.2]
    | edit op => rfl

/-! ## Runs -/

variable {as : List (Action κ τ ι)}

/-- Every caller has left the bytes it lent. -/
def AllKept (p : Lending κ τ ι) : Prop := ∀ l ∈ p.lent, l.Kept

theorem AllKept.next {a : Action κ τ ι} (h : p.AllKept) (hleft : p.Untouched a) :
    ((steps threadId_).next p a).AllKept := by
  cases a with
  | step a =>
    intro l hl
    obtain hl | hl := List.mem_append.mp hl
    · exact h l hl
    · obtain ⟨m, -, rfl⟩ := List.mem_map.mp hl
      exact ⟨nofun, nofun⟩
  | send t cell data => exact h
  | functor k data => exact fun l hl => h l (List.mem_of_mem_drop hl)
  | edit op =>
    intro l' hl'
    obtain ⟨l, hl, rfl⟩ := List.mem_map.mp hl'
    rw [Loan.after]
    split
    · next hin =>
      obtain ⟨b, hb, hp⟩ := hleft l hl hin
      refine ⟨List.forall_mem_cons.mpr ⟨?_, (h l hl).1⟩, ?_⟩
      · exact Option.ne_none_iff_exists'.mpr ⟨b, hb⟩
      · rintro _ ⟨⟩
        exact ⟨b, hb, hp⟩
    · exact h l hl

omit [DecidableEq τ] [DecidableEq ι] in
theorem AllKept.intact (h : p.AllKept) (hrec : p.Recorded) (a : Action κ τ ι) : p.Intact a := by
  cases a with
  | functor k data => exact fun l hl => h l (hrec.loan hl).1
  | _ => trivial

/-- **A queued `send` transmits what it was given, exactly.**  From construction on, whatever the
callers do to their strings: every `sendInLoop` finds the bytes `send` was given exactly if, at each,
what the callers did since has not freed their storage and has left them in it; that holds where no
caller frees or overwrites bytes it has lent; and then the run is one of the session by value. -/
theorem transmits_iff_intact {c : TcpConnection κ τ} (hc : c.Constructed) (arg : τ → ι)
    (hvalid : (steps threadId_).Valid (new c arg) as) :
    ((steps threadId_).Along Transmits (new c arg) as ↔
      (steps threadId_).Along Intact (new c arg) as) ∧
    ((steps threadId_).Along Untouched (new c arg) as →
      (steps threadId_).Along Intact (new c arg) as) ∧
    ((steps threadId_).Along Transmits (new c arg) as →
      ∃ bs, bs = (steps threadId_).collect label (new c arg) as ∧
        (Session.steps threadId_).Valid (.new c) bs ∧
        (Session.steps threadId_).run (.new c) bs =
          ((steps threadId_).run (new c arg) as).session) := by
  have hrec : (new c arg).Recorded := recorded_new hc arg
  refine ⟨?_, fun hleft => ?_, fun htransmits => ?_⟩
  · exact Machine.along_congr_of_invariant (I := Recorded) (fun _ _ h ha => h.next ha)
      (fun p a h _ => h.transmits_iff a) hvalid hrec
  · have hrun := Machine.along_and.mpr ⟨hvalid, hleft⟩
    exact hrun.imp_of_invariant (I := fun p => p.Recorded ∧ p.AllKept)
      (fun p a hp ha => ⟨hp.1.next ha.1, hp.2.next ha.2⟩)
      (fun p a hp _ => hp.2.intact hp.1 a) ⟨hrec, nofun⟩
  · have hrun := (Machine.restrict_valid Transmits _ as).mpr ⟨hvalid, htransmits⟩
    obtain ⟨hvalid', hend⟩ := (simulation threadId_).run hrec hrun
    rw [Machine.restrict_collect] at hvalid' hend
    exact ⟨_, rfl, hvalid', hend⟩

/-- A caller that lets its string go when it has been sent. -/
theorem transmits_iff_intact_kept :
    (steps true).Along Transmits
      (new (.new () 7 .new) fun _ => () : Lending Unit Bool Unit)
      [.step .connectEstablished, .step .ret, .edit (.move () [1, 2]), .send false () [1, 2],
        .step (.sendRun false ⟨⟨-1, 0, 0⟩, .data []⟩), .functor ⟨⟨2, 0, 0⟩, .data []⟩ [],
        .edit (.free ())] := by
  obtain ⟨htransmits, huntouched, -⟩ := transmits_iff_intact (constructed_new _ _ rfl rfl) _
    (show (steps true).Valid (new (.new () 7 .new) fun _ => () : Lending Unit Bool Unit)
      [.step .connectEstablished, .step .ret, .edit (.move () [1, 2]), .send false () [1, 2],
        .step (.sendRun false ⟨⟨-1, 0, 0⟩, .data []⟩), .functor ⟨⟨2, 0, 0⟩, .data []⟩ [],
        .edit (.free ())] by decide)
  exact htransmits.mpr (huntouched (by decide))

/-- **One that uses it again at once**: the bytes that go out are the new ones. -/
theorem not_transmits_reused :
    (TcpConnection.new () 7 .new : TcpConnection Unit Bool).Constructed ∧
    (steps true).Valid
      (new (.new () 7 .new) fun _ => () : Lending Unit Bool Unit)
      [.step .connectEstablished, .step .ret, .edit (.move () [1, 2]), .send false () [1, 2],
        .step (.sendRun false ⟨⟨-1, 0, 0⟩, .data []⟩), .edit (.overwrite () [3, 4]),
        .functor ⟨⟨2, 0, 0⟩, .data []⟩ []] ∧
    ¬ (steps true).Along Transmits
      (new (.new () 7 .new) fun _ => () : Lending Unit Bool Unit)
      [.step .connectEstablished, .step .ret, .edit (.move () [1, 2]), .send false () [1, 2],
        .step (.sendRun false ⟨⟨-1, 0, 0⟩, .data []⟩), .edit (.overwrite () [3, 4]),
        .functor ⟨⟨2, 0, 0⟩, .data []⟩ []] ∧
    ((steps true).run
      (new (.new () 7 .new) fun _ => () : Lending Unit Bool Unit)
      [.step .connectEstablished, .step .ret, .edit (.move () [1, 2]), .send false () [1, 2],
        .step (.sendRun false ⟨⟨-1, 0, 0⟩, .data []⟩), .edit (.overwrite () [3, 4]),
        .functor ⟨⟨2, 0, 0⟩, .data []⟩ []]).session.conn.written = [3, 4] := by
  refine ⟨constructed_new _ _ rfl rfl, by decide, ?_, by decide⟩
  rintro ⟨-, -, -, -, -, -, hlast, -⟩
  exact absurd (hlast ⟨false, some 0, [1, 2], [.overwrite () [3, 4]]⟩ rfl) (by decide)

/-- An append that does not fit frees the bytes that were lent, though the string still begins with
them: the functor finds what is there by then. -/
example :
    ((steps true).run
      (new (.new () 7 .new) fun _ => () : Lending Unit Bool Unit)
      [.step .connectEstablished, .step .ret, .edit (.move () [1, 2]), .send false () [1, 2],
        .step (.sendRun false ⟨⟨-1, 0, 0⟩, .data []⟩), .edit (.move () [1, 2, 3]),
        .functor ⟨⟨2, 0, 0⟩, .data []⟩ [9, 9]]).session.conn.written = [9, 9] := by
  decide

end Lending

end Mymuduo
