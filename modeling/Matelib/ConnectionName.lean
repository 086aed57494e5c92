import Matelib.Decimal
import Matelib.TcpConnection

/-!
# The names of connections

A server names a connection by its number, the local port, the descriptor and the address of the
peer, cut to 31 characters. The descriptor is never cut off, so it can be read back from the name.
-/

namespace Matelib

structure InetAddress where
  addr : UInt8 × UInt8 × UInt8 × UInt8
  port : UInt16
  deriving DecidableEq

def InetAddress.toPort (a : InetAddress) : Bytes := decimal a.port.toNat

def InetAddress.toIp (a : InetAddress) : Bytes :=
  decimal a.addr.1.toNat ++ ascii "." ++ decimal a.addr.2.1.toNat ++ ascii "." ++
    decimal a.addr.2.2.1.toNat ++ ascii "." ++ decimal a.addr.2.2.2.toNat

def InetAddress.toIpPort (a : InetAddress) : Bytes := a.toIp ++ ascii ":" ++ a.toPort

/-- The name that `TcpServer::handleConnection` gives. The number is printed with `%d`, as an
`int`. -/
def connName (nextConnId : ℕ) (localAddr : InetAddress) (connfd : ℕ) (peerAddr : InetAddress) :
    Bytes :=
  snprintf 32 (ascii "#" ++ decimal (TcpConnection.toInt nextConnId) ++ ascii ":" ++
    localAddr.toPort ++ ascii "." ++ decimal connfd ++ ascii "-" ++ peerAddr.toIpPort)

/-- Two texts are equal up to the first occurrence of a byte and behind it. -/
theorem split_unique {c : UInt8} {a a' b b' : Bytes} (ha : c ∉ a) (ha' : c ∉ a')
    (h : a ++ c :: b = a' ++ c :: b') : a = a' ∧ b = b' := by
  have hcut := cut_append ha b
  rw [h, cut_append ha' b', Option.some.injEq, Prod.mk.injEq] at hcut
  exact ⟨hcut.1.symm, hcut.2.symm⟩

/-- The part of a name in front of the descriptor. -/
def connNumber (nextConnId : ℕ) (localAddr : InetAddress) : Bytes :=
  ascii "#" ++ decimal (TcpConnection.toInt nextConnId) ++ ascii ":" ++ localAddr.toPort

theorem dot_not_mem_connNumber (nextConnId : ℕ) (localAddr : InetAddress) :
    46 ∉ connNumber nextConnId localAddr := by
  have hid : 46 ∉ decimal (TcpConnection.toInt nextConnId) := by
    intro h
    rcases mem_decimal h with hf | hf
    · exact absurd hf (by decide)
    · exact absurd hf.1 (by decide)
  have hport : 46 ∉ localAddr.toPort := by
    intro h
    exact absurd (isDigit_decimal h).1 (by decide)
  simp only [connNumber, List.mem_append, not_or]
  exact ⟨⟨⟨by decide, hid⟩, by decide⟩, hport⟩

theorem length_connNumber_le (nextConnId : ℕ) (localAddr : InetAddress) :
    (connNumber nextConnId localAddr).length ≤ 18 := by
  have hid : (decimal (TcpConnection.toInt nextConnId)).length ≤ 11 := by
    apply length_decimal_int32
    · exact BitVec.le_toInt _
    · exact BitVec.toInt_lt
  have hport : localAddr.toPort.length ≤ 5 := by
    apply length_decimal_le (by decide)
    have := localAddr.port.toNat_lt
    omega
  simp only [connNumber, List.length_append]
  change 1 + _ + 1 + _ ≤ 18
  omega

theorem connName_eq (nextConnId : ℕ) (localAddr : InetAddress) {connfd : ℕ}
    (hfd : connfd < 2 ^ 31) (peerAddr : InetAddress) :
    ∃ rest, connName nextConnId localAddr connfd peerAddr =
      connNumber nextConnId localAddr ++ 46 :: (decimal connfd ++ 45 :: rest) := by
  have hnumber := length_connNumber_le nextConnId localAddr
  have hlen : (decimal connfd).length ≤ 10 := by
    apply length_decimal_le (by decide)
    omega
  have htext : ascii "#" ++ decimal (TcpConnection.toInt nextConnId) ++ ascii ":" ++
      localAddr.toPort ++ ascii "." ++ decimal connfd ++ ascii "-" ++ peerAddr.toIpPort =
        (connNumber nextConnId localAddr ++ 46 :: (decimal connfd ++ [45])) ++
          peerAddr.toIpPort := by
    rw [show ascii "." = [46] from rfl, show ascii "-" = [45] from rfl, connNumber]
    simp only [List.append_assoc, List.cons_append, List.nil_append]
  refine ⟨peerAddr.toIpPort.take
    (31 - (connNumber nextConnId localAddr ++ 46 :: (decimal connfd ++ [45])).length), ?_⟩
  rw [connName, snprintf, htext, List.take_append, List.take_of_length_le]
  · simp only [List.append_assoc, List.cons_append, List.nil_append]
  · simp only [List.length_append, List.length_cons, List.length_nil]
    omega

theorem connName_connfd {id id' fd fd' : ℕ} {a a' p p' : InetAddress} (hfd : fd < 2 ^ 31)
    (hfd' : fd' < 2 ^ 31) (h : connName id a fd p = connName id' a' fd' p') : fd = fd' := by
  obtain ⟨rest, hname⟩ := connName_eq id a hfd p
  obtain ⟨rest', hname'⟩ := connName_eq id' a' hfd' p'
  have hdash : ∀ n : ℕ, 45 ∉ decimal n := by
    intro n hmem
    exact absurd (isDigit_decimal hmem).1 (by decide)
  rw [hname, hname'] at h
  have hbehind := (split_unique (dot_not_mem_connNumber id a) (dot_not_mem_connNumber id' a') h).2
  exact decimal_injective (split_unique (hdash fd) (hdash fd') hbehind).1

end Matelib
