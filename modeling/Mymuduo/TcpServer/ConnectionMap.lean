import Mymuduo.Machinery.Machine
import Mymuduo.TcpServer.ConnName

/-!
# TcpServer/ConnectionMap — `conncetions_`, over a server's whole life

`newConncetion` enters a connection under its name, and `removeConnectionInLoop` erases the entry of
that name, whoever it belongs to.  Connections are numbered here as they are accepted, and may stay
as long as they like; the number in a name comes round:

    conncetions_ is exact  ↔  a name is given, and given up again, only while nobody else has it

The table is that of any names made from the number, as long as they tell numbers apart.
-/

namespace Mymuduo

open Machinery

/-- What a server knows of its connections: `names` lists those of all it has accepted, and
`removed` records the calls of `removeConnectionInLoop`. -/
structure ConnectionTable (κ : Type*) where
  nextConnId_ : BitVec 32
  conncetions_ : κ → Option ℕ
  names : List κ
  removed : List ℕ

namespace ConnectionTable

variable {κ : Type*}

/-- The table as the constructor leaves it. -/
def start : ConnectionTable κ := ⟨1, fun _ => none, [], []⟩

/-- The calls; a removal may be made by any loop, at any time and again. -/
inductive Action
  | newConncetion
  | removeConnectionInLoop (conn : ℕ)
  deriving DecidableEq, Repr

variable (key : BitVec 32 → κ) (s : ConnectionTable κ)

section steps

variable [DecidableEq κ]

/-- `conncetions_[connName] = conn`, under the next name. -/
def newConncetion : ConnectionTable κ where
  nextConnId_ := s.nextConnId_ + 1
  conncetions_ := Function.update s.conncetions_ (key s.nextConnId_) (some s.names.length)
  names := s.names ++ [key s.nextConnId_]
  removed := s.removed

/-- `conncetions_.erase(conn->name())`. -/
def removeConnectionInLoop (conn : ℕ) : ConnectionTable κ :=
  { s with
    conncetions_ := fun name => if s.names[conn]? = some name then none else s.conncetions_ name
    removed := conn :: s.removed }

/-- **The table**: only a connection that has been accepted can be removed. -/
def steps : Machine (ConnectionTable κ) Action where
  enabled s
    | .newConncetion => True
    | .removeConnectionInLoop conn => conn < s.names.length
  next s
    | .newConncetion => s.newConncetion key
    | .removeConnectionInLoop conn => s.removeConnectionInLoop conn

instance (s : ConnectionTable κ) : ∀ a, Decidable ((steps key).enabled s a)
  | .newConncetion => isTrue trivial
  | .removeConnectionInLoop _ => inferInstanceAs (Decidable (_ < _))

end steps

/-! ## The laws -/

/-- Accepted, and not removed. -/
def Live (c : ℕ) : Prop := c < s.names.length ∧ c ∉ s.removed

/-- **`conncetions_` is exact**: no two live connections have one name, and it holds them all, each
under its own, and nothing else. -/
structure Exact (s : ConnectionTable κ) : Prop where
  distinct : ∀ c c', s.Live c → s.Live c' → s.names[c]? = s.names[c']? → c = c'
  conncetions_ : ∀ name c, s.conncetions_ name = some c ↔ s.Live c ∧ s.names[c]? = some name

/-- **No entry of another connection is replaced or erased.** -/
def Keeps : Action → Prop
  | .newConncetion => s.conncetions_ (key s.nextConnId_) = none
  | .removeConnectionInLoop conn =>
      ∀ name c, s.names[conn]? = some name → s.conncetions_ name = some c → c = conn

/-- The number that is given is nobody's, and that of a connection removed before is nobody else's:
a connection's number is its place, in 32 bits. -/
def Free : Action → Prop
  | .newConncetion => ∀ c < s.names.length, c ∉ s.removed → ¬ c ≡ s.names.length [MOD 2 ^ 32]
  | .removeConnectionInLoop conn =>
      conn ∈ s.removed → ∀ c < s.names.length, c ∉ s.removed → ¬ c ≡ conn [MOD 2 ^ 32]

instance (s : ConnectionTable κ) : ∀ a, Decidable (s.Free a)
  | .newConncetion => inferInstanceAs (Decidable (∀ c < s.names.length, _ → ¬ _))
  | .removeConnectionInLoop _ =>
      inferInstanceAs (Decidable (_ → ∀ c < s.names.length, _ → ¬ _))

/-! ## Numbers and names -/

/-- **A connection's name is made from its place**, and the next is the next. -/
structure Numbered (s : ConnectionTable κ) : Prop where
  nextConnId_ : s.nextConnId_ = BitVec.ofNat 32 (s.names.length + 1)
  names : ∀ c < s.names.length, s.names[c]? = some (key (BitVec.ofNat 32 (c + 1)))
  removed : ∀ c ∈ s.removed, c < s.names.length

variable {key s} {a : Action} {as : List Action} {c c' conn : ℕ}

theorem ofNat_succ_inj : BitVec.ofNat 32 (c + 1) = BitVec.ofNat 32 (c' + 1) ↔
    c ≡ c' [MOD 2 ^ 32] := by
  rw [← BitVec.toNat_inj, BitVec.toNat_ofNat, BitVec.toNat_ofNat]
  exact ⟨Nat.ModEq.add_right_cancel' 1, Nat.ModEq.add_right 1⟩

/-- Names are equal where the numbers are. -/
theorem Numbered.same_iff (h : s.Numbered key) (hkey : Function.Injective key)
    (hc : c < s.names.length) (hc' : c' < s.names.length) :
    s.names[c]? = s.names[c']? ↔ c ≡ c' [MOD 2 ^ 32] := by
  rw [h.names c hc, h.names c' hc', Option.some_inj, hkey.eq_iff, ofNat_succ_inj]

theorem Numbered.next_iff (h : s.Numbered key) (hkey : Function.Injective key)
    (hc : c < s.names.length) :
    s.names[c]? = some (key s.nextConnId_) ↔ c ≡ s.names.length [MOD 2 ^ 32] := by
  rw [h.names c hc, h.nextConnId_, Option.some_inj, hkey.eq_iff, ofNat_succ_inj]

theorem numbered_start : (start : ConnectionTable κ).Numbered key := ⟨rfl, nofun, nofun⟩

theorem exact_start : (start : ConnectionTable κ).Exact :=
  ⟨fun _ _ hc => absurd hc.1 (Nat.not_lt_zero _),
    fun _ _ => ⟨nofun, fun hc => absurd hc.1.1 (Nat.not_lt_zero _)⟩⟩

/-! ## Acceptance -/

section accept

variable [DecidableEq κ]

@[simp] theorem length_names_accept :
    (s.newConncetion key).names.length = s.names.length + 1 := List.length_append

theorem Numbered.accept (h : s.Numbered key) : (s.newConncetion key).Numbered key := by
  refine ⟨?_, fun c hc => ?_, fun c hc => ?_⟩
  · rw [length_names_accept, BitVec.ofNat_add, ← h.nextConnId_]
    rfl
  · rw [length_names_accept] at hc
    change (s.names ++ [key s.nextConnId_])[c]? = _
    obtain hlt | rfl := Nat.lt_succ_iff_lt_or_eq.mp hc
    · rw [List.getElem?_append_left hlt, h.names c hlt]
    · rw [List.getElem?_concat_length, h.nextConnId_]
  · rw [length_names_accept]
    exact Nat.lt_succ_of_lt (h.removed c hc)

/-- The new connection is live, and those that were. -/
theorem Numbered.live_accept (h : s.Numbered key) :
    (s.newConncetion key).Live c ↔ s.Live c ∨ c = s.names.length := by
  rw [Live, length_names_accept, Nat.lt_succ_iff_lt_or_eq, or_and_right]
  refine or_congr Iff.rfl (and_iff_left_of_imp ?_)
  rintro rfl hc
  exact absurd (h.removed _ hc) (Nat.lt_irrefl _)

theorem names_accept_of_live (hc : s.Live c) : (s.newConncetion key).names[c]? = s.names[c]? :=
  List.getElem?_append_left hc.1

theorem names_accept_self :
    (s.newConncetion key).names[s.names.length]? = some (key s.nextConnId_) :=
  List.getElem?_concat_length ..

/-- **Acceptance keeps the table exact exactly if the number is free.** -/
theorem Exact.accept_iff (h : s.Exact) (hn : s.Numbered key) (hkey : Function.Injective key) :
    (s.newConncetion key).Exact ↔ s.Free .newConncetion := by
  constructor
  · intro hnext c hc hlive hsame
    have hself := hnext.distinct c s.names.length (hn.live_accept.mpr (.inl ⟨hc, hlive⟩))
      (hn.live_accept.mpr (.inr rfl)) (by
        rw [names_accept_of_live ⟨hc, hlive⟩, names_accept_self, hn.next_iff hkey hc]
        exact hsame)
    exact Nat.ne_of_lt hc hself
  · intro hfree
    have hother : ∀ c, s.Live c → s.names[c]? ≠ some (key s.nextConnId_) := fun c hc hname =>
      hfree c hc.1 hc.2 ((hn.next_iff hkey hc.1).mp hname)
    refine ⟨fun c c' hc hc' hsame => ?_, fun name c => ?_⟩
    · obtain hc | rfl := hn.live_accept.mp hc <;> obtain hc' | rfl := hn.live_accept.mp hc'
      · rw [names_accept_of_live hc, names_accept_of_live hc'] at hsame
        exact h.distinct c c' hc hc' hsame
      · rw [names_accept_of_live hc, names_accept_self] at hsame
        exact absurd hsame (hother c hc)
      · rw [names_accept_of_live hc', names_accept_self] at hsame
        exact absurd hsame.symm (hother c' hc')
      · rfl
    · change Function.update s.conncetions_ (key s.nextConnId_) (some s.names.length) name = _ ↔ _
      by_cases hname : name = key s.nextConnId_
      · rw [hname, Function.update_self, Option.some_inj]
        constructor
        · rintro rfl
          exact ⟨hn.live_accept.mpr (.inr rfl), names_accept_self⟩
        · rintro ⟨hc, hsame⟩
          obtain hc | rfl := hn.live_accept.mp hc
          · rw [names_accept_of_live hc] at hsame
            exact absurd hsame (hother c hc)
          · rfl
      · rw [Function.update_of_ne hname, h.conncetions_]
        constructor
        · rintro ⟨hc, hsame⟩
          exact ⟨hn.live_accept.mpr (.inl hc), (names_accept_of_live hc).trans hsame⟩
        · rintro ⟨hc, hsame⟩
          obtain hc | rfl := hn.live_accept.mp hc
          · exact ⟨hc, (names_accept_of_live hc).symm.trans hsame⟩
          · rw [names_accept_self, Option.some_inj] at hsame
            exact absurd hsame.symm hname

omit [DecidableEq κ] in
/-- It writes over no entry just then. -/
theorem Exact.keeps_accept_iff (h : s.Exact) (hn : s.Numbered key)
    (hkey : Function.Injective key) : s.Keeps key .newConncetion ↔ s.Free .newConncetion := by
  rw [Keeps, Option.eq_none_iff_forall_ne_some]
  constructor
  · intro hnone c hc hlive hsame
    exact hnone c ((h.conncetions_ _ c).mpr ⟨⟨hc, hlive⟩, (hn.next_iff hkey hc).mpr hsame⟩)
  · intro hfree c hentry
    obtain ⟨hc, hname⟩ := (h.conncetions_ _ c).mp hentry
    exact hfree c hc.1 hc.2 ((hn.next_iff hkey hc.1).mp hname)

end accept

/-! ## Removal -/

section remove

variable [DecidableEq κ]

theorem Numbered.remove (h : s.Numbered key) (hconn : conn < s.names.length) :
    (s.removeConnectionInLoop conn).Numbered key := by
  refine ⟨h.nextConnId_, h.names, ?_⟩
  rintro c (_ | ⟨_, hc⟩)
  · exact hconn
  · exact h.removed c hc

/-- The connection is live no more. -/
theorem live_remove : (s.removeConnectionInLoop conn).Live c ↔ s.Live c ∧ c ≠ conn := by
  change c < s.names.length ∧ c ∉ conn :: s.removed ↔ _
  rw [List.mem_cons, not_or, and_comm (a := c ≠ conn), ← and_assoc]
  rfl

/-- **Removal keeps the table exact exactly if it is not of a name that has been taken again.** -/
theorem Exact.remove_iff (h : s.Exact) (hn : s.Numbered key) (hkey : Function.Injective key)
    (hconn : conn < s.names.length) :
    (s.removeConnectionInLoop conn).Exact ↔ s.Free (.removeConnectionInLoop conn) := by
  constructor
  · intro hnext hremoved c hc hlive hsame
    have hne : c ≠ conn := by
      rintro rfl
      exact hlive hremoved
    have hname := (hn.same_iff hkey hc hconn).mpr hsame
    rw [hn.names c hc] at hname
    have hentry := (hnext.conncetions_ _ c).mpr ⟨live_remove.mpr ⟨⟨hc, hlive⟩, hne⟩, hn.names c hc⟩
    change (if s.names[conn]? = some _ then none else _) = some c at hentry
    rw [if_pos hname.symm] at hentry
    cases hentry
  · intro hfree
    refine ⟨fun c c' hc hc' => h.distinct c c' (live_remove.mp hc).1 (live_remove.mp hc').1,
      fun name c => ?_⟩
    change (if s.names[conn]? = some name then none else s.conncetions_ name) = some c ↔ _
    rw [live_remove]
    by_cases hname : s.names[conn]? = some name
    · rw [if_pos hname]
      refine ⟨nofun, ?_⟩
      rintro ⟨⟨hc, hne⟩, hsame⟩
      rw [← hname] at hsame
      by_cases hremoved : conn ∈ s.removed
      · exact absurd ((hn.same_iff hkey hc.1 hconn).mp hsame) (hfree hremoved c hc.1 hc.2)
      · exact absurd (h.distinct c conn hc ⟨hconn, hremoved⟩ hsame) hne
    · rw [if_neg hname, h.conncetions_]
      refine and_congr_left fun hsame => (and_iff_left_of_imp fun _ => ?_).symm
      rintro rfl
      exact hname hsame

omit [DecidableEq κ] in
/-- It erases nobody else's entry just then. -/
theorem Exact.keeps_remove_iff (h : s.Exact) (hn : s.Numbered key) (hkey : Function.Injective key)
    (hconn : conn < s.names.length) : s.Keeps key (.removeConnectionInLoop conn) ↔
      s.Free (.removeConnectionInLoop conn) := by
  constructor
  · intro hkeeps hremoved c hc hlive hsame
    have hname := (hn.same_iff hkey hc hconn).mpr hsame
    rw [hn.names c hc] at hname
    obtain rfl := hkeeps _ c hname.symm ((h.conncetions_ _ c).mpr ⟨⟨hc, hlive⟩, hn.names c hc⟩)
    exact hlive hremoved
  · intro hfree name c hname hentry
    obtain ⟨hc, hsame⟩ := (h.conncetions_ _ c).mp hentry
    rw [← hname] at hsame
    by_cases hremoved : conn ∈ s.removed
    · exact absurd ((hn.same_iff hkey hc.1 hconn).mp hsame) (hfree hremoved c hc.1 hc.2)
    · exact h.distinct c conn hc ⟨hconn, hremoved⟩ hsame

end remove

/-! ## Runs -/

section runs

variable [DecidableEq κ]

theorem Numbered.next (h : s.Numbered key) (ha : (steps key).enabled s a) :
    ((steps key).next s a).Numbered key := by
  cases a with
  | newConncetion => exact h.accept
  | removeConnectionInLoop conn => exact h.remove ha

theorem Exact.next_iff (h : s.Exact) (hn : s.Numbered key) (hkey : Function.Injective key)
    (ha : (steps key).enabled s a) : ((steps key).next s a).Exact ↔ s.Free a := by
  cases a with
  | newConncetion => exact h.accept_iff hn hkey
  | removeConnectionInLoop conn => exact h.remove_iff hn hkey ha

theorem Exact.keeps_iff (h : s.Exact) (hn : s.Numbered key) (hkey : Function.Injective key)
    (ha : (steps key).enabled s a) : s.Keeps key a ↔ s.Free a := by
  cases a with
  | newConncetion => exact h.keeps_accept_iff hn hkey
  | removeConnectionInLoop conn => exact h.keeps_remove_iff hn hkey ha

/-- **The run lemma**, for names that tell numbers apart. -/
theorem laws_iff (hkey : Function.Injective key) (hs : s.Exact ∧ s.Numbered key)
    (hvalid : (steps key).Valid s as) :
    ((steps key).Along (Keeps key) s as ↔ (steps key).Along Free s as) ∧
    ((steps key).Always Exact s as ↔ (steps key).Along Free s as) := by
  have hstep : ∀ (s : ConnectionTable κ) (a : Action), s.Exact ∧ s.Numbered key →
      (steps key).enabled s a → s.Free a →
      ((steps key).next s a).Exact ∧ ((steps key).next s a).Numbered key :=
    fun s a hs ha hfree => ⟨(hs.1.next_iff hs.2 hkey ha).mpr hfree, hs.2.next ha⟩
  refine ⟨Machine.along_congr_of_guarded hstep
    (fun _ _ hs ha => hs.1.keeps_iff hs.2 hkey ha) hvalid hs, ?_⟩
  rw [Machine.always_iff, and_iff_right hs.1]
  exact Machine.along_congr_of_guarded hstep
    (fun _ _ hs ha => hs.1.next_iff hs.2 hkey ha) hvalid hs

/-- A table only grows. -/
theorem length_next_le (s : ConnectionTable κ) (a : Action) :
    s.names.length ≤ ((steps key).next s a).names.length := by
  cases a with
  | newConncetion => exact le_of_le_of_eq (Nat.le_succ _) length_names_accept.symm
  | removeConnectionInLoop conn => exact le_refl _

theorem length_run_le (s : ConnectionTable κ) (as : List Action) :
    s.names.length ≤ ((steps key).run s as).names.length := by
  induction as generalizing s with
  | nil => exact le_refl _
  | cons a as ih => exact (length_next_le s a).trans (ih _)

/-- As long as the number has not come round it is free. -/
theorem free_of_few (ha : (steps key).enabled s a)
    (hfew : ((steps key).next s a).names.length ≤ 2 ^ 32) : s.Free a := by
  cases a with
  | newConncetion =>
    change (s.newConncetion key).names.length ≤ 2 ^ 32 at hfew
    rw [length_names_accept] at hfew
    intro c hc _ hsame
    exact Nat.ne_of_lt hc (hsame.eq_of_lt_of_lt (hc.trans hfew) hfew)
  | removeConnectionInLoop conn =>
    intro hremoved c hc hlive hsame
    have hlt : ∀ c < s.names.length, c < 2 ^ 32 := fun c hc => lt_of_lt_of_le hc hfew
    obtain rfl := hsame.eq_of_lt_of_lt (hlt c hc) (hlt conn ha)
    exact hlive hremoved

/-- **A server that has accepted no more than `2 ^ 32` connections is in time.** -/
theorem along_free_of_few (hvalid : (steps key).Valid s as)
    (hfew : ((steps key).run s as).names.length ≤ 2 ^ 32) : (steps key).Along Free s as := by
  induction as generalizing s with
  | nil => trivial
  | cons a as ih =>
    exact ⟨free_of_few hvalid.1 ((length_run_le _ as).trans hfew), ih hvalid.2 hfew⟩

end runs

/-- **The connection map is exact, exactly as long as no name in use comes round.**  In every run of
acceptances and removals: no entry of another connection is ever replaced or erased, if and only if
a connection is accepted only when its number is that of no live connection, and one that has been
removed is removed again only when no live connection has its number; and `conncetions_` always
holds exactly the live connections, each under its own name, if and only if that is so. -/
theorem exact_iff_free (name_ : String) (listenAddr : InetAddress)
    (hvalid : (steps (connName name_ listenAddr.toIpPort)).Valid start as) :
    ((steps (connName name_ listenAddr.toIpPort)).Along (Keeps (connName name_ listenAddr.toIpPort))
        start as ↔ (steps (connName name_ listenAddr.toIpPort)).Along Free start as) ∧
    ((steps (connName name_ listenAddr.toIpPort)).Always Exact start as ↔
      (steps (connName name_ listenAddr.toIpPort)).Along Free start as) :=
  laws_iff (connName_injective name_ listenAddr) ⟨exact_start, numbered_start⟩ hvalid

/-- A connection removed twice, and others before and after it. -/
theorem exact_iff_free_twice :
    (steps (connName "EchoServer" (InetAddress.ofPort 8000).toIpPort)).Always Exact start
      [.newConncetion, .newConncetion, .removeConnectionInLoop 0, .removeConnectionInLoop 0,
        .newConncetion] :=
  (exact_iff_free "EchoServer" (.ofPort 8000) (by decide +kernel)).2.mpr (by decide +kernel)

/-! ### The number comes round -/

/-- `n` connections that come and go, one after the other, while the first stays. -/
def churn (n : ℕ) : List Action :=
  .newConncetion :: (List.range n).flatMap fun k =>
    [.newConncetion, .removeConnectionInLoop (k + 1)]

theorem churn_succ (n : ℕ) :
    churn (n + 1) = churn n ++ [.newConncetion, .removeConnectionInLoop (n + 1)] := by
  rw [churn, List.range_succ, List.flatMap_append, ← List.cons_append, ← churn]
  rfl

variable [DecidableEq κ] (key) in
/-- It can go on for any time. -/
theorem run_churn (n : ℕ) : (steps key).Valid start (churn n) ∧
    ((steps key).run start (churn n)).names.length = n + 1 ∧
    0 ∉ ((steps key).run start (churn n)).removed := by
  induction n with
  | zero => exact ⟨⟨trivial, trivial⟩, rfl, nofun⟩
  | succ n ih =>
    obtain ⟨hvalid, hlength, hstays⟩ := ih
    have hnext :
        (((steps key).run start (churn n)).newConncetion key).names.length = n + 1 + 1 := by
      rw [length_names_accept, hlength]
    rw [churn_succ, Machine.run_append]
    refine ⟨Machine.along_append.mpr ⟨hvalid, trivial, ?_, trivial⟩, hnext, ?_⟩
    · exact lt_of_lt_of_eq (Nat.lt_succ_self _) hnext.symm
    · change 0 ∉ (n + 1) :: ((steps key).run start (churn n)).removed
      rw [List.mem_cons, not_or]
      exact ⟨(Nat.succ_ne_zero n).symm, hstays⟩

/-- When the number has come round, the next connection has the first one's name. -/
theorem not_exact_churn [DecidableEq κ] {n : ℕ} (hn : 0 ≡ n + 1 [MOD 2 ^ 32]) :
    ¬ (steps key).Always Exact start (churn n ++ [.newConncetion]) := by
  intro hexact
  obtain ⟨hvalid, hlength, hstays⟩ := run_churn key n
  have hnumbered := hvalid.invariant (I := Numbered key) (fun _ _ hs ha => hs.next ha)
    numbered_start
  have hend := hexact.last
  rw [Machine.run_append] at hend
  generalize (steps key).run start (churn n) = s at *
  have hfirst : s.Live 0 := ⟨hlength ▸ Nat.succ_pos n, hstays⟩
  have hsame : s.names[0]? = some (key s.nextConnId_) := by
    rw [hnumbered.names 0 hfirst.1, hnumbered.nextConnId_, hlength]
    exact congrArg (some ∘ key) (ofNat_succ_inj.mpr hn)
  have hself := hend.distinct 0 s.names.length (hnumbered.live_accept.mpr (.inl hfirst))
    (hnumbered.live_accept.mpr (.inr rfl))
    ((names_accept_of_live hfirst).trans (hsame.trans names_accept_self.symm))
  rw [hlength] at hself
  cases hself

/-- **The map does not stay exact**: after `2 ^ 32 - 1` connections have come and gone the next one
gets the name of the first, which is still there, and takes its entry. -/
theorem not_exact_round :
    (steps (connName "EchoServer" (InetAddress.ofPort 8000).toIpPort)).Valid start
      (churn (2 ^ 32 - 1) ++ [.newConncetion]) ∧
    ¬ (steps (connName "EchoServer" (InetAddress.ofPort 8000).toIpPort)).Always Exact start
      (churn (2 ^ 32 - 1) ++ [.newConncetion]) :=
  ⟨Machine.along_append.mpr ⟨(run_churn _ _).1, trivial, trivial⟩, not_exact_churn rfl⟩

end ConnectionTable

end Mymuduo
