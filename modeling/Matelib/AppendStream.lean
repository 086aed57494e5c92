import Mathlib.Data.List.Basic
import Mathlib.Logic.Function.Basic
import Mathlib.Tactic.SplitIfs

/-!
# Buffered streams that append

The files of a disk are lists that only grow. A stream writes to the end of one of them, through a
buffer of at most `cap` elements, and may pass on what is in the buffer at any time. `view` is what
the files hold once the stream is closed. The second part is the plain picture of such files: a
sequence of named parts, each written behind the parts before it.
-/

namespace Matelib.AppendStream

variable {ν β : Type*} [DecidableEq ν] {cap : ℕ}

abbrev Disk (ν β : Type*) := ν → List β

def Disk.extend (d : Disk ν β) (name : ν) (data : List β) : Disk ν β :=
  Function.update d name (d name ++ data)

structure Stream (ν β : Type*) (cap : ℕ) where
  name : ν
  buf : List β
  fits : buf.length ≤ cap

namespace Stream

def fresh (name : ν) : Stream ν β cap := ⟨name, [], Nat.zero_le cap⟩

/-- The stream takes `data`, and at least `drain` elements go to the file. -/
def put (s : Stream ν β cap) (d : Disk ν β) (data : List β) (drain : ℕ) :
    Stream ν β cap × Disk ν β :=
  let all := s.buf ++ data
  let n := max drain (all.length - cap)
  (⟨s.name, all.drop n, by rw [List.length_drop]; omega⟩, d.extend s.name (all.take n))

def flush (s : Stream ν β cap) (d : Disk ν β) : Stream ν β cap × Disk ν β :=
  (fresh s.name, d.extend s.name s.buf)

/-- What the files hold when the stream has written all it has taken. -/
def view (s : Stream ν β cap) (d : Disk ν β) : Disk ν β := d.extend s.name s.buf

omit [DecidableEq ν] in
@[simp] theorem fresh_name (name : ν) : (fresh name : Stream ν β cap).name = name := rfl

@[simp] theorem put_name (s : Stream ν β cap) (d : Disk ν β) (data : List β) (drain : ℕ) :
    (s.put d data drain).1.name = s.name := rfl

@[simp] theorem flush_name (s : Stream ν β cap) (d : Disk ν β) : (s.flush d).1.name = s.name := rfl

@[simp] theorem flush_buf (s : Stream ν β cap) (d : Disk ν β) : (s.flush d).1.buf = [] := rfl

end Stream

namespace Disk

@[simp] theorem extend_nil (d : Disk ν β) (name : ν) : d.extend name [] = d := by
  rw [extend, List.append_nil, Function.update_eq_self]

@[simp] theorem extend_extend (d : Disk ν β) (name : ν) (a b : List β) :
    (d.extend name a).extend name b = d.extend name (a ++ b) := by
  simp only [extend, Function.update_self, Function.update_idem, List.append_assoc]

end Disk

namespace Stream

@[simp] theorem view_fresh (name : ν) (d : Disk ν β) :
    (fresh name : Stream ν β cap).view d = d :=
  d.extend_nil name

theorem view_put (s : Stream ν β cap) (d : Disk ν β) (data : List β) (drain : ℕ) :
    (s.put d data drain).1.view (s.put d data drain).2 = (s.view d).extend s.name data := by
  simp only [put, view, Disk.extend_extend, List.take_append_drop]

theorem length_put_buf (s : Stream ν β cap) (d : Disk ν β) (data : List β) (drain : ℕ) :
    (s.put d data drain).1.buf.length ≤ s.buf.length + data.length := by
  simp only [put, List.length_drop, List.length_append]
  omega

theorem view_flush (s : Stream ν β cap) (d : Disk ν β) :
    (s.flush d).1.view (s.flush d).2 = s.view d :=
  view_fresh s.name _

theorem disk_flush (s : Stream ν β cap) (d : Disk ν β) : (s.flush d).2 = s.view d := rfl

end Stream

def written (d : Disk ν β) (parts : List (ν × List β)) : Disk ν β :=
  parts.foldl (fun d p => d.extend p.1 p.2) d

@[simp] theorem written_nil (d : Disk ν β) : written d [] = d := rfl

@[simp] theorem written_append (d : Disk ν β) (a b : List (ν × List β)) :
    written d (a ++ b) = written (written d a) b :=
  List.foldl_append

@[simp] theorem written_singleton (d : Disk ν β) (p : ν × List β) :
    written d [p] = d.extend p.1 p.2 := rfl

/-- The last part grows. -/
theorem written_grow (d : Disk ν β) (parts : List (ν × List β)) (name : ν) (a b : List β) :
    written d (parts ++ [(name, a ++ b)]) = (written d (parts ++ [(name, a)])).extend name b := by
  simp only [written_append, written_singleton, Disk.extend_extend]

end Matelib.AppendStream
