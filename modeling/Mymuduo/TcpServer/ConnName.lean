import Mathlib

/-!
# TcpServer/ConnName — the name of a connection

`newConncetion` names a connection after the server, its address and a running number,

    connName = name_ + "-" + ipPort_ + "#" + nextConnId_

printed into a buffer of 64 characters.  An address takes at most 21 of them and a number 11, so
nothing is cut off and the number can be read back (`connName_injective`): a name stands for the 32
bits of the number.
-/

namespace Mymuduo

/-- `in_addr`: four bytes, in the order they are sent. -/
structure in_addr where
  b₀ : BitVec 8
  b₁ : BitVec 8
  b₂ : BitVec 8
  b₃ : BitVec 8
  deriving DecidableEq, Repr

/-- An `InetAddress`, its port in the order of the network. -/
structure InetAddress where
  sin_addr : in_addr
  sin_port : BitVec 8 × BitVec 8
  deriving DecidableEq, Repr

/-- `ntohs`. -/
def ntohs (port : BitVec 8 × BitVec 8) : BitVec 16 := port.1 ++ port.2

def htons (port : BitVec 16) : BitVec 8 × BitVec 8 := (port.extractLsb' 8 8, port.extractLsb' 0 8)

/-- The constructor, at its default address. -/
def InetAddress.ofPort (port : BitVec 16) : InetAddress := ⟨⟨127, 0, 0, 1⟩, htons port⟩

/-- `inet_ntop` of an IPv4 address: four numbers and three dots. -/
def inet_ntop (a : in_addr) : String :=
  a.b₀.toNat.repr ++ "." ++ a.b₁.toNat.repr ++ "." ++ a.b₂.toNat.repr ++ "." ++ a.b₃.toNat.repr

def InetAddress.toIpPort (a : InetAddress) : String :=
  inet_ntop a.sin_addr ++ ":" ++ (ntohs a.sin_port).toNat.repr

/-- The string `snprintf` leaves in a buffer of `size` characters: the last is for the zero. -/
def snprintf (size : ℕ) (text : String) : String := .ofList (text.toList.take (size - 1))

/-- The name `newConncetion` makes. -/
def connName (name_ ipPort_ : String) (nextConnId_ : BitVec 32) : String :=
  name_ ++ snprintf 64 ("-" ++ ipPort_ ++ "#" ++ nextConnId_.toInt.repr)

/-! ## How long it gets -/

/-- A number below `10 ^ k` has at most `k` digits. -/
theorem length_natRepr_le {n k : ℕ} (hk : 0 < k) (hn : n < 10 ^ k) : n.repr.length ≤ k := by
  rw [← String.length_toList, Nat.toList_repr]
  exact (Nat.length_toDigits_le_iff (by decide) hk).mpr hn

/-- And a sign. -/
theorem length_intRepr_le {z : ℤ} {k : ℕ} (hk : 0 < k) (hz : z.natAbs < 10 ^ k) :
    z.repr.length ≤ k + 1 := by
  rw [Int.repr_eq_if]
  split
  case isTrue hpos =>
    have hnat : z.toNat = z.natAbs := by omega
    exact (length_natRepr_le hk (hnat ▸ hz)).trans (Nat.le_succ k)
  case isFalse hneg =>
    have hnat : (-z).toNat = z.natAbs := by omega
    rw [String.length_append, Nat.add_comm]
    exact Nat.succ_le_succ (length_natRepr_le hk (hnat ▸ hz))

/-- An address takes at most 21 characters: four times three digits, five, and four separators. -/
theorem length_toIpPort_le (a : InetAddress) : a.toIpPort.length ≤ 21 := by
  have hbyte : ∀ b : BitVec 8, b.toNat.repr.length ≤ 3 := fun b =>
    length_natRepr_le (by decide) (b.isLt.trans (by decide))
  have hport : (ntohs a.sin_port).toNat.repr.length ≤ 5 :=
    length_natRepr_le (by decide) ((ntohs a.sin_port).isLt.trans (by decide))
  have h₀ := hbyte a.sin_addr.b₀
  have h₁ := hbyte a.sin_addr.b₁
  have h₂ := hbyte a.sin_addr.b₂
  have h₃ := hbyte a.sin_addr.b₃
  have hdot : ".".length = 1 := rfl
  have hcolon : ":".length = 1 := rfl
  simp only [InetAddress.toIpPort, inet_ntop, String.length_append, hdot, hcolon]
  omega

/-- What fits is printed whole. -/
theorem snprintf_eq {size : ℕ} {text : String} (h : text.length < size) :
    snprintf size text = text := by
  rw [snprintf, List.take_of_length_le, String.ofList_toList]
  rw [String.length_toList]
  omega

/-- **The buffer is long enough.** -/
theorem connName_eq (name_ : String) (a : InetAddress) (i : BitVec 32) :
    connName name_ a.toIpPort i = name_ ++ ("-" ++ a.toIpPort ++ "#" ++ i.toInt.repr) := by
  have haddr := length_toIpPort_le a
  have hnumber : i.toInt.repr.length ≤ 11 := by
    refine length_intRepr_le (by decide) ?_
    have hlt := i.toInt_lt
    have hle := i.le_toInt
    omega
  have hdash : "-".length = 1 := rfl
  have hhash : "#".length = 1 := rfl
  rw [connName, snprintf_eq]
  simp only [String.length_append, hdash, hhash]
  omega

/-- **A name stands for its number.** -/
theorem connName_injective (name_ : String) (a : InetAddress) :
    Function.Injective (connName name_ a.toIpPort) := by
  intro i j hij
  rw [connName_eq, connName_eq, String.append_right_inj, String.append_right_inj] at hij
  exact BitVec.toInt_inj.mp (Int.repr_injective hij)

example : connName "EchoServer" (InetAddress.ofPort 8000).toIpPort 1 =
    "EchoServer-127.0.0.1:8000#1" := by decide +kernel

end Mymuduo
