import Mymuduo.Kernel.Syscall
import Mymuduo.Machinery.Region

/-!
# Buffer/Model — `Buffer`, as `Buffer.h` and `Buffer.cc` have it

    | prependable bytes | readable bytes | writable bytes |
    0        ≤      readerIndex_  ≤  writerIndex_   ≤   size

A member function that touches the vector's storage returns `none` when it would leave it, so that
staying inside `buffer_` is a theorem and not a convention.  Sizes are natural numbers: this is the
code with no `size_t` sum overflowing.
-/

namespace Mymuduo

open Machinery

structure Buffer where
  buffer_ : List Byte
  readerIndex_ : ℕ
  writerIndex_ : ℕ
  deriving DecidableEq, Repr

namespace Buffer

def kCheapPrepend : ℕ := 8
def kInitialSize : ℕ := 1024

/-- `sizeof extrabuf`, the stack space `readFd` offers beside the writable bytes. -/
def extrabufSize : ℕ := 65536

/-- The constructor. -/
def new (initialSize : ℕ) : Buffer where
  buffer_ := List.replicate (kCheapPrepend + initialSize) 0
  readerIndex_ := kCheapPrepend
  writerIndex_ := kCheapPrepend

variable (b : Buffer)

def readableBytes : ℕ := b.writerIndex_ - b.readerIndex_

def writableBytes : ℕ := b.buffer_.length - b.writerIndex_

def prependableBytes : ℕ := b.readerIndex_

def retrieveAll : Buffer :=
  { b with readerIndex_ := kCheapPrepend, writerIndex_ := kCheapPrepend }

def retrieve (len : ℕ) : Buffer :=
  if len < b.readableBytes then { b with readerIndex_ := b.readerIndex_ + len }
  else b.retrieveAll

/-- `std::string result(peek(), len); retrieve(len);` -/
def retrieveAsString (len : ℕ) : Option (List Byte × Buffer) := do
  let result ← Region.read b.buffer_ b.readerIndex_ len
  return (result, b.retrieve len)

def retrieveAllAsString : Option (List Byte × Buffer) := b.retrieveAsString b.readableBytes

/-- Grow the vector, or slide the readable bytes down to `kCheapPrepend`. -/
def makeSpace (len : ℕ) : Option Buffer :=
  if b.writableBytes + b.prependableBytes < len + kCheapPrepend then
    some { b with buffer_ := Region.resize b.buffer_ (b.writerIndex_ + len) 0 }
  else do
    let readable := b.readableBytes
    let buffer_ ← Region.copyForward b.buffer_ b.readerIndex_ kCheapPrepend readable
    return { buffer_, readerIndex_ := kCheapPrepend, writerIndex_ := kCheapPrepend + readable }

def ensureWriteableBytes (len : ℕ) : Option Buffer :=
  if b.writableBytes < len then b.makeSpace len else some b

def append (data : List Byte) : Option Buffer := do
  let b ← b.ensureWriteableBytes data.length
  let buffer_ ← Region.write b.buffer_ b.writerIndex_ data
  return { b with buffer_, writerIndex_ := b.writerIndex_ + data.length }

/-- The most bytes the `iovec` of `readFd` has room for: the second part is only offered when the
writable bytes are fewer than `sizeof extrabuf`. -/
def iovecSize : ℕ :=
  b.writableBytes + if b.writableBytes < extrabufSize then extrabufSize else 0

/-- `readFd`: the value returned, `*saveErrno` if it was set, and the buffer afterwards.  The
answer's bytes are scattered over the writable bytes first and `extrabuf` after them. -/
def readFd (k : ReadvResult) : Option (ℤ × Option Errno × Buffer) :=
  match k with
  | .fail errno => some (-1, some errno, b)
  | .data bytes => do
      let writable := b.writableBytes
      let buffer_ ← Region.write b.buffer_ b.writerIndex_ (bytes.take writable)
      let extrabuf ← Region.write (List.replicate extrabufSize 0) 0 (bytes.drop writable)
      let b := { b with buffer_ }
      let n := bytes.length
      if n ≤ writable then
        return (n, none, { b with writerIndex_ := b.writerIndex_ + n })
      else
        let spilled ← Region.read extrabuf 0 (n - writable)
        let b ← append { b with writerIndex_ := b.buffer_.length } spilled
        return (n, none, b)

/-- `writeFd`: the bytes handed to `::write`, the value returned, and `*saveErrno` if it was set. -/
def writeFd (r : WriteResult) : Option (List Byte × ℤ × Option Errno) := do
  let data ← Region.read b.buffer_ b.readerIndex_ b.readableBytes
  return (data, r.n, if r.n < 0 then some r.errno else none)

/-- **The bytes the buffer holds**, `buffer_[readerIndex_, writerIndex_)`. -/
def content : List Byte := Region.window b.buffer_ b.readerIndex_ b.writerIndex_

/-- **The index invariant.** -/
structure Inv : Prop where
  prepend : kCheapPrepend ≤ b.readerIndex_
  order : b.readerIndex_ ≤ b.writerIndex_
  size : b.writerIndex_ ≤ b.buffer_.length

/-! ## The operations as one interface -/

/-- A call on a buffer; `readFd` comes with the kernel's answer. -/
inductive Op
  | append (data : List Byte)
  | retrieve (len : ℕ)
  | retrieveAll
  | retrieveAsString (len : ℕ)
  | retrieveAllAsString
  | ensureWriteableBytes (len : ℕ)
  | readFd (k : ReadvResult)
  deriving DecidableEq, Repr

/-- What a call returns. -/
inductive Out
  | void
  | string (s : List Byte)
  | count (n : ℤ) (saveErrno : Option Errno)
  deriving DecidableEq, Repr

def call : Op → Option (Out × Buffer)
  | .append data => (b.append data).map (Out.void, ·)
  | .retrieve len => some (.void, b.retrieve len)
  | .retrieveAll => some (.void, b.retrieveAll)
  | .retrieveAsString len => (b.retrieveAsString len).map fun p => (.string p.1, p.2)
  | .retrieveAllAsString => b.retrieveAllAsString.map fun p => (.string p.1, p.2)
  | .ensureWriteableBytes len => (b.ensureWriteableBytes len).map (Out.void, ·)
  | .readFd k => (b.readFd k).map fun p => (.count p.1 p.2.1, p.2.2)

/-- **What a caller and the kernel owe**: `retrieveAsString` asks for no more than is readable, and
`readv` delivers no more than the `iovec` holds. -/
def Allowed : Op → Prop
  | .retrieveAsString len => len ≤ b.readableBytes
  | .readFd (.data bytes) => bytes.length ≤ b.iovecSize
  | _ => True

instance Allowed.decidable : ∀ o, Decidable (b.Allowed o)
  | .retrieveAsString _ => inferInstanceAs (Decidable (_ ≤ _))
  | .readFd (.data _) => inferInstanceAs (Decidable (_ ≤ _))
  | .readFd (.fail _) | .append _ | .retrieve _ | .retrieveAll | .retrieveAllAsString
  | .ensureWriteableBytes _ => isTrue trivial

end Buffer

end Mymuduo
