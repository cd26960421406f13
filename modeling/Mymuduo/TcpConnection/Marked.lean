import Mymuduo.TcpConnection.SendContract

/-!
# TcpConnection/Marked — a session whose high-water mark is set as it goes

`setHighWaterMarkCallback` may be called whenever someone has the connection.  It changes what is
queued beside a message, and nothing the life of the connection or the fate of its messages depends
on.  What a session has come to is a matter of the methods it has run and the messages handed to it
(`Sums`): the first make up its output and say whether it is closed, and the second are those of the
methods and those still queued, each thread's in its own order.
-/

namespace Mymuduo

open Machinery TcpConnection

/-- A connection without what it shares with its loop. -/
def TcpConnection.bare {κ τ : Type*} (c : TcpConnection κ τ) : TcpConnection κ τ :=
  { c with poller_ := .new, pendingFunctors_ := [] }

namespace Session

variable {κ τ : Type*} [DecidableEq τ] {threadId_ : τ} {s s' : Session κ τ}

/-- `setHighWaterMarkCallback`. -/
def setHighWaterMarkCallback (s : Session κ τ) (highWaterMark : ℕ) : Session κ τ :=
  { s with conn :=
    { s.conn with highWaterMarkCallback_ := true, highWaterMark_ := highWaterMark } }

/-- **The session with the mark**: an action of it, or the call that sets the mark. -/
def marked (threadId_ : τ) : Machine (Session κ τ) (Action κ τ ⊕ ℕ) where
  enabled s := Sum.elim ((steps threadId_).enabled s) fun _ => True
  next s := Sum.elim ((steps threadId_).next s) s.setHighWaterMarkCallback

omit [DecidableEq τ] in
theorem Initial.marked (h : s.Initial) (mark : ℕ) : (s.setHighWaterMarkCallback mark).Initial := by
  obtain ⟨c, hc, rfl⟩ := h
  exact ⟨{ c with highWaterMarkCallback_ := true, highWaterMark_ := mark }, { hc with }, rfl⟩

omit [DecidableEq τ] in
theorem Live.marked (h : s.Live) (mark : ℕ) : (s.setHighWaterMarkCallback mark).Live :=
  { h with agrees := ⟨h.agrees.interest, h.agrees.channels⟩ }

/-- A session with the mark lives through the same phases. -/
theorem Phased.marked_next (h : s.Phased) {a : Action κ τ ⊕ ℕ}
    (ha : (marked threadId_).enabled s a) : ((marked threadId_).next s a).Phased := by
  cases a with
  | inl a => exact Phased.next h ha
  | inr mark => exact h.imp (·.marked mark) (·.marked mark)

omit [DecidableEq τ] in
/-- In each of them the poller agrees with the channel. -/
theorem Phased.agrees (h : s.Phased) : s.conn.Agrees := by
  obtain ⟨c, hc, rfl⟩ | hlive := h
  · exact hc.agrees
  · exact hlive.agrees

/-! ## What a run amounts to -/

variable (threadId_) in
/-- The method an action runs, with the connection it finds. -/
def runs (s : Session κ τ) : Action κ τ ⊕ ℕ → List (TcpConnection κ τ × Method τ) :=
  Sum.elim (fun a => (s.method threadId_ a).toList.map (s.conn.bare, ·)) fun _ => []

/-- The message it hands over. -/
def hands (s : Session κ τ) : Action κ τ ⊕ ℕ → List (τ × List Byte) :=
  Sum.elim s.handed fun _ => []

/-- **What a session has come to**: `rs` are the methods it has run, `ms` the messages handed to
it. -/
structure Sums (threadId_ : τ) (rs : List (TcpConnection κ τ × Method τ))
    (ms : List (τ × List Byte)) (s : Session κ τ) : Prop where
  output : s.conn.output = (rs.flatMap fun r => r.1.kept r.2).flatten
  closed : s.closed = rs.any (·.2.closes)
  ran : s.ran = rs.flatMap (·.2.message)
  foreign : ∀ x ∈ s.conn.queued, x.1 ≠ threadId_
  order : Shuffle (s.ran ++ s.conn.queued) ms

theorem Initial.sums (h : s.Initial) : Sums threadId_ [] [] s := by
  obtain ⟨c, hc, rfl⟩ := h
  have hqueued : c.queued = [] := by rw [queued, hc.functors]; rfl
  have houtput : c.output = [] := by
    rw [TcpConnection.output, TcpConnection.written, hc.calls, hc.output]
    rfl
  exact ⟨houtput, rfl, rfl, by simp [new, hqueued], by simp [new, hqueued, Shuffle.refl]⟩

omit [DecidableEq τ] in
/-- A message is kept or dropped whatever an action does beside its method. -/
theorem Frame.kept (h : Frame s s') (m : Method τ) : s'.conn.kept m = s.conn.bare.kept m := by
  cases m with
  | sendInLoop caller data r =>
    have hdrops : s.conn.Dropped r ↔ s'.conn.Dropped r := h.drops_iff (.sendInLoop caller data r)
    have hbare : s.conn.bare.Dropped r ↔ s.conn.Dropped r := Iff.rfl
    simp only [TcpConnection.kept, hbare, hdrops]
  | _ => rfl

/-- What is handed over runs behind what has run, or waits behind what is queued; and the loop's
thread finds nothing of its own queued. -/
theorem Sums.order_next {rs : List (TcpConnection κ τ × Method τ)} {ms : List (τ × List Byte)}
    {a : Action κ τ} (h : Sums threadId_ rs ms s) (ha : s.Ready threadId_ a) :
    (∀ x ∈ ((steps threadId_).next s a).conn.queued, x.1 ≠ threadId_) ∧
      Shuffle (((steps threadId_).next s a).ran ++ ((steps threadId_).next s a).conn.queued)
        (ms ++ s.handed a) := by
  obtain ⟨hown, hran, hqueued⟩ | ⟨hother, hran, hqueued⟩ | ⟨hnone, xs, hran, hqueued⟩ :=
    next_handed ha
  · rw [hran, hqueued]
    refine ⟨h.foreign, fun t => ?_⟩
    have horder := h.order t
    rw [itemsOf_append] at horder
    simp only [itemsOf_append, ← horder]
    by_cases ht : t = threadId_
    · have hnone : itemsOf t s.conn.queued = [] :=
        itemsOf_eq_nil fun x hx hxt => h.foreign x hx (hxt.trans ht)
      rw [hnone, List.append_nil, List.append_nil]
    · have hnone : itemsOf t (s.handed a) = [] :=
        itemsOf_eq_nil fun x hx hxt => ht (hxt.symm.trans (hown x hx))
      rw [hnone, List.append_nil, List.append_nil]
  · rw [hran, hqueued]
    refine ⟨fun x hx => (List.mem_append.mp hx).elim (h.foreign x) (hother x), fun t => ?_⟩
    rw [← List.append_assoc, itemsOf_append, h.order t, itemsOf_append]
  · rw [hran, List.append_assoc, ← hqueued, hnone, List.append_nil]
    exact ⟨fun x hx => h.foreign x (hqueued ▸ List.mem_append_right xs hx), h.order⟩

theorem Sums.next {rs : List (TcpConnection κ τ × Method τ)} {ms : List (τ × List Byte)}
    {b : Action κ τ ⊕ ℕ} (h : Sums threadId_ rs ms s) (hb : (marked threadId_).enabled s b) :
    Sums threadId_ (rs ++ s.runs threadId_ b) (ms ++ s.hands b) ((marked threadId_).next s b) := by
  cases b with
  | inr mark =>
    simp only [runs, hands, Sum.elim_inr, List.append_nil]
    exact { h with }
  | inl a =>
    have ha : (steps threadId_).enabled s a := hb
    have hframe := book_frame ha.1
    obtain ⟨hforeign, horder⟩ := h.order_next ha.1
    change Sums threadId_ _ _ ((steps threadId_).next s a)
    refine ⟨?_, ?_, ?_, hforeign, horder⟩
    · have hbook : (s.book threadId_ a).conn.output = s.conn.output := by
        rw [TcpConnection.output, TcpConnection.written, hframe.calls, hframe.output]
        rfl
      cases hm : s.method threadId_ a with
      | none => simp [next_of_none hm, hbook, h.output, runs, hm]
      | some m =>
        rw [next_of_some hm, perform, output_run m (ha.2 m hm), hbook, h.output, hframe.kept]
        simp [runs, hm]
    · rw [next_closed ha.1, h.closed, List.any_append]
      cases hm : s.method threadId_ a <;> simp [runs, hm]
    · rw [next_ran ha.1, h.ran, List.flatMap_append]
      cases hm : s.method threadId_ a <;> simp [runs, hm]

/-- **A run comes to what it runs and what is handed over in it.** -/
theorem Sums.run {rs : List (TcpConnection κ τ × Method τ)} {ms : List (τ × List Byte)}
    {bs : List (Action κ τ ⊕ ℕ)} (h : Sums threadId_ rs ms s) (hbs : (marked threadId_).Valid s bs) :
    Sums threadId_ (rs ++ (marked threadId_).collect (runs threadId_) s bs)
      (ms ++ (marked threadId_).collect hands s bs) ((marked threadId_).run s bs) := by
  induction bs generalizing s rs ms with
  | nil => simpa using h
  | cons b bs ih =>
    rw [Machine.collect_cons, Machine.collect_cons, ← List.append_assoc, ← List.append_assoc]
    exact ih (h.next hbs.1) hbs.2

end Session

end Mymuduo
