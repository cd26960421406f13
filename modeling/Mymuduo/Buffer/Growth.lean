import Mymuduo.Buffer.Queue

/-!
# Buffer/Growth — a buffer is as large as its contents ask for

The branch of `makeSpace` that grows keeps the consumed prefix: the new size is
`writerIndex_ + len`.  It is only taken when the free bytes on both sides together are fewer than
`len + kCheapPrepend`, and `readerIndex_` is one of the two sides, so

    writerIndex_ + len = readerIndex_ + (readableBytes() + len)
                       < (len + kCheapPrepend) + (readableBytes() + len)

and `readableBytes() + len` is what is readable afterwards.  Every call that grows a buffer leaves
its size in that relation to what it then holds (`length_call`), however long the run before it.
-/

namespace Mymuduo

open Machinery

namespace Buffer

variable {b b' : Buffer} {o : Op} {r : Out} {L R : ℕ}

/-! ## What a run is made of -/

/-- The bytes a call hands to `append`: the spill of a `readFd` counts. -/
def appended (b : Buffer) : Op → ℕ
  | .append data => data.length
  | .readFd (.data bytes) => bytes.length - b.writableBytes
  | .retrieve _ | .retrieveAll | .retrieveAsString _ | .retrieveAllAsString
  | .ensureWriteableBytes _ | .readFd (.fail _) => 0

/-- The calls that move bytes: all but a bare `ensureWriteableBytes`. -/
def Op.moves : Op → Bool
  | .ensureWriteableBytes _ => false
  | .append _ | .retrieve _ | .retrieveAll | .retrieveAsString _ | .retrieveAllAsString
  | .readFd _ => true

/-- What the kernel owes: `readv` delivers no more than the `iovec` holds. -/
def Delivered (b : Buffer) : Op → Prop
  | .readFd (.data bytes) => bytes.length ≤ b.iovecSize
  | _ => True

instance (b : Buffer) : ∀ o, Decidable (b.Delivered o)
  | .readFd (.data _) => inferInstanceAs (Decidable (_ ≤ _))
  | .readFd (.fail _) | .append _ | .retrieve _ | .retrieveAll | .retrieveAsString _
  | .retrieveAllAsString | .ensureWriteableBytes _ => isTrue trivial

/-- The calls of a moderate user: each moves bytes, appends at most `L`, and leaves at most `R`
readable. -/
def Moderate (L R : ℕ) (b : Buffer) (o : Op) : Prop :=
  o.moves = true ∧ b.Delivered o ∧ b.appended o ≤ L ∧
    ∀ p ∈ b.call o, p.2.readableBytes ≤ R

instance (L R : ℕ) (b : Buffer) (o : Op) : Decidable (Moderate L R b o) :=
  inferInstanceAs (Decidable (_ ∧ _ ∧ _ ∧ _))

/-! ## The indices, also where a caller asks for too much -/

/-- **Every call that stays inside the storage keeps the indices in order.** -/
theorem inv_call (hb : b.Inv) (ho : b.Delivered o) (h : b.call o = some (r, b')) : b'.Inv := by
  by_cases hstring : ∃ len, o = .retrieveAsString len
  · obtain ⟨len, rfl⟩ := hstring
    obtain ⟨⟨s, b₁⟩, hread, hcall⟩ := Option.map_eq_some_iff.mp h
    obtain ⟨s', -, hsome⟩ := Option.bind_eq_some_iff.mp hread
    obtain ⟨-, rfl⟩ := Prod.mk.inj hcall
    obtain ⟨-, rfl⟩ := Prod.mk.inj (Option.some.inj hsome)
    exact inv_retrieve hb len
  · have hallowed : b.Allowed o := by
      cases o with
      | retrieveAsString len => exact absurd ⟨len, rfl⟩ hstring
      | readFd k =>
        cases k with
        | fail errno => trivial
        | data bytes => exact ho
      | _ => trivial
    obtain ⟨r', b₁, hcall, hb₁, -⟩ := call_refines b o hb hallowed
    rw [h] at hcall
    obtain ⟨-, rfl⟩ := Prod.mk.inj (Option.some.inj hcall)
    exact hb₁

/-! ## One call -/

/-- **Growing is bounded by the branch that grows.** -/
theorem length_ensureWriteableBytes (hb : b.Inv) {len : ℕ}
    (h : b.ensureWriteableBytes len = some b') :
    b'.buffer_.length = b.buffer_.length ∨
      b'.buffer_.length < b.readableBytes + len + (len + kCheapPrepend) := by
  unfold ensureWriteableBytes at h
  split at h
  · next hfull =>
    unfold makeSpace at h
    split at h
    · next hgrow =>
      obtain rfl := Option.some.inj h
      right
      rw [Region.length_resize]
      have horder := hb.order
      unfold prependableBytes at hgrow
      unfold readableBytes
      omega
    · obtain ⟨m, hcopy, hm, -⟩ := copyForward_spec hb
      simp only [hcopy, Option.bind_eq_bind, Option.bind_some] at h
      obtain rfl := Option.some.inj h
      exact .inl hm
  · obtain rfl := Option.some.inj h
    exact .inl rfl

/-- So an `append` that grows leaves a size the readable bytes account for. -/
theorem length_append (hb : b.Inv) {data : List Byte} (h : b.append data = some b') :
    b'.buffer_.length = b.buffer_.length ∨
      b'.buffer_.length < b'.readableBytes + (data.length + kCheapPrepend) := by
  have hreadable : b'.readableBytes = b.readableBytes + data.length := by
    obtain ⟨b₁, happ, hb₁, hcont⟩ := append_spec hb data
    obtain rfl := Option.some.inj (h.symm.trans happ)
    rw [← length_content hb₁, hcont, List.length_append, length_content hb]
  obtain ⟨b₁, hens, h⟩ := Option.bind_eq_some_iff.mp h
  obtain ⟨m, hwrite, h⟩ := Option.bind_eq_some_iff.mp h
  obtain rfl := Option.some.inj h
  rw [hreadable]
  change m.length = _ ∨ m.length < _
  rw [Region.length_write hwrite]
  exact length_ensureWriteableBytes hb hens

/-- `readFd` grows by the `append` of its spill, which finds no byte writable. -/
theorem length_readFd (hb : b.Inv) {bytes : List Byte} {n : ℤ} {e : Option Errno}
    (h : b.readFd (.data bytes) = some (n, e, b')) :
    b'.buffer_.length = b.buffer_.length ∨
      b'.buffer_.length < b'.readableBytes + (bytes.length - b.writableBytes + kCheapPrepend) := by
  obtain ⟨m, hwrite, h⟩ := Option.bind_eq_some_iff.mp h
  obtain ⟨extrabuf, -, h⟩ := Option.bind_eq_some_iff.mp h
  have hm := Region.length_write hwrite
  by_cases hfit : bytes.length ≤ b.writableBytes
  · rw [if_pos hfit] at h
    obtain rfl := (Prod.mk.inj (Prod.mk.inj (Option.some.inj h)).2).2
    exact .inl hm
  · rw [if_neg hfit] at h
    obtain ⟨spilled, hread, h⟩ := Option.bind_eq_some_iff.mp h
    obtain ⟨b₁, happ, h⟩ := Option.bind_eq_some_iff.mp h
    obtain rfl := (Prod.mk.inj (Prod.mk.inj (Option.some.inj h)).2).2
    have hspilled : spilled.length ≤ bytes.length - b.writableBytes := by
      rw [Region.read, Option.ite_none_right_eq_some, Option.some_inj] at hread
      rw [← hread.2]
      exact List.length_take_le _ _
    have hfull : ({ b with buffer_ := m, writerIndex_ := m.length } : Buffer).Inv :=
      ⟨hb.prepend, by rw [hm]; exact le_trans hb.order hb.size, le_refl _⟩
    obtain hsame | hgrown := length_append hfull happ
    · exact .inl (hsame.trans hm)
    · exact .inr (by omega)

/-- **A call either keeps the size, or leaves one that its contents account for.** -/
theorem length_call (hb : b.Inv) (hmoves : o.moves = true) (h : b.call o = some (r, b')) :
    b'.buffer_.length = b.buffer_.length ∨
      b'.buffer_.length < b'.readableBytes + (b.appended o + kCheapPrepend) := by
  have hretrieve : ∀ len, (b.retrieve len).buffer_ = b.buffer_ := fun len => by
    unfold retrieve
    split <;> rfl
  cases o with
  | append data =>
    obtain ⟨b₁, happ, hcall⟩ := Option.map_eq_some_iff.mp h
    obtain ⟨-, rfl⟩ := Prod.mk.inj hcall
    exact length_append hb happ
  | retrieve len =>
    obtain ⟨-, rfl⟩ := Prod.mk.inj (Option.some.inj h)
    exact .inl (congrArg List.length (hretrieve len))
  | retrieveAll =>
    obtain ⟨-, rfl⟩ := Prod.mk.inj (Option.some.inj h)
    exact .inl rfl
  | retrieveAsString len =>
    obtain ⟨⟨s, b₁⟩, hread, hcall⟩ := Option.map_eq_some_iff.mp h
    obtain ⟨s', -, hsome⟩ := Option.bind_eq_some_iff.mp hread
    obtain ⟨-, rfl⟩ := Prod.mk.inj hcall
    obtain ⟨-, rfl⟩ := Prod.mk.inj (Option.some.inj hsome)
    exact .inl (congrArg List.length (hretrieve len))
  | retrieveAllAsString =>
    rw [call, retrieveAllAsString_spec hb] at h
    obtain ⟨-, rfl⟩ := Prod.mk.inj (Option.some.inj h)
    exact .inl (congrArg List.length (hretrieve _))
  | ensureWriteableBytes len => cases hmoves
  | readFd k =>
    obtain ⟨⟨n, e, b₁⟩, hread, hcall⟩ := Option.map_eq_some_iff.mp h
    obtain ⟨-, rfl⟩ := Prod.mk.inj hcall
    cases k with
    | fail errno =>
      obtain rfl := (Prod.mk.inj (Prod.mk.inj (Option.some.inj hread)).2).2
      exact .inl rfl
    | data bytes => exact length_readFd hb hread

/-! ## Any run -/

/-- **Growth is bounded by the contents, not by the history.**  Over every sequence of calls that
append at most `L` bytes each and never leave more than `R` readable, from every initial size, the
vector never outgrows what it began with or `R + L + kCheapPrepend` bytes. -/
theorem growth_bounded (initialSize : ℕ) (calls rest : List Op) {outs : List Out}
    (h : Meets call (Moderate L R) (new initialSize) (calls ++ rest))
    (hrun : perform call (new initialSize) calls = some (outs, b)) :
    b.buffer_.length ≤ max (kCheapPrepend + initialSize) (R + L + kCheapPrepend) := by
  refine (perform_invariant (I := fun b => b.Inv ∧
    b.buffer_.length ≤ max (kCheapPrepend + initialSize) (R + L + kCheapPrepend)) ?_
    h.of_prefix hrun ⟨inv_new initialSize, ?_⟩).2
  swap
  · rw [show (new initialSize).buffer_.length = _ from List.length_replicate]
    exact le_max_left _ _
  intro b o r b' hb ho hcall
  obtain ⟨hmoves, hdelivered, hL, hR⟩ := ho
  refine ⟨inv_call hb.1 hdelivered hcall, ?_⟩
  obtain hsame | hgrown := length_call hb.1 hmoves hcall
  · rw [hsame]
    exact hb.2
  · have hreadable : b'.readableBytes ≤ R := hR (r, b') hcall
    omega

/-- A buffer of four bytes in steady use: it grows once, to fourteen. -/
theorem growth_bounded_steady :
    ∃ outs b, perform call (new 4) [.append [1, 2, 3], .retrieve 2, .append [4, 5, 6], .retrieve 3,
        .append [7, 8, 9], .retrieveAsString 3, .append [1, 2, 3]] = some (outs, b) ∧
      b.buffer_.length ≤ max (kCheapPrepend + 4) (4 + 3 + kCheapPrepend) :=
  ⟨_, _, rfl, growth_bounded 4 [.append [1, 2, 3], .retrieve 2, .append [4, 5, 6], .retrieve 3,
    .append [7, 8, 9], .retrieveAsString 3, .append [1, 2, 3]] [] (by decide) rfl⟩

end Buffer

end Mymuduo
