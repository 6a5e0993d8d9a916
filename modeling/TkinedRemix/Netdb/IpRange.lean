import Mathlib

/-!
`netdb ip range` of `tnmNetdb.c`. Addresses and masks are 32 bit numbers in host order, as `GetIpAddr` and
`GetIpMask` return them. The range is counted from the address itself, host bits included.
-/

namespace Tnm.Netdb

open List

def hostsFrom (last host : BitVec 32) : List (BitVec 32) :=
  if host < last then host :: hostsFrom last (host + 1#32) else []
termination_by last.toNat - host.toNat
decreasing_by
  have := last.isLt
  simp only [BitVec.lt_def, BitVec.toNat_add, BitVec.toNat_ofNat] at *
  omega

/-- `NetdbIp` for `range`. -/
def netdbIpRange (net mask : BitVec 32) : List (BitVec 32) := hostsFrom (net + ~~~mask) (net + 1#32)

theorem mem_hostsFrom (last host other : BitVec 32) : other ∈ hostsFrom last host ↔ host ≤ other ∧ other < last := by
  fun_induction hostsFrom last host with
  | case1 host below ih =>
    rw [mem_cons, ih]
    simp only [BitVec.lt_def, BitVec.le_def, BitVec.toNat_add, BitVec.toNat_ofNat, ← BitVec.toNat_inj] at *
    omega
  | case2 host above =>
    refine iff_of_false not_mem_nil fun bounds => ?_
    simp only [BitVec.lt_def, BitVec.le_def] at *
    omega

theorem hostsFrom_increasing (last host : BitVec 32) : (hostsFrom last host).Pairwise (· < ·) := by
  fun_induction hostsFrom last host with
  | case1 host below ih =>
    refine pairwise_cons.mpr ⟨fun other later => ?_, ih⟩
    have bounds := (mem_hostsFrom last (host + 1#32) other).mp later
    simp only [BitVec.lt_def, BitVec.le_def, BitVec.toNat_add, BitVec.toNat_ofNat] at *
    omega
  | case2 => exact Pairwise.nil

theorem toNat_network (net mask : BitVec 32) : (net &&& mask).toNat + (net &&& ~~~mask).toNat = net.toNat := by
  have apart : (net &&& mask) &&& (net &&& ~~~mask) = 0#32 := by
    ext bit
    simp +contextual
  rw [← BitVec.toNat_add_of_and_eq_zero apart, BitVec.add_eq_or_of_and_eq_zero _ _ apart, ← BitVec.and_or_distrib_left,
    BitVec.or_not_self, BitVec.and_allOnes]

theorem toNat_broadcast (net mask : BitVec 32) :
    (net ||| ~~~mask).toNat = (net &&& mask).toNat + (~~~mask).toNat := by
  have apart : (net &&& mask) &&& ~~~mask = 0#32 := by
    ext bit
    simp
  rw [← BitVec.toNat_add_of_and_eq_zero apart, BitVec.add_eq_or_of_and_eq_zero _ _ apart]
  congr 1
  ext bit
  simp only [BitVec.getElem_or, BitVec.getElem_and, BitVec.getElem_not]
  cases net[bit] <;> cases mask[bit] <;> rfl

theorem netdbIpRange_exact_iff (net mask : BitVec 32) :
    ((netdbIpRange net mask).Pairwise (· < ·) ∧ ∀ host, host ∈ netdbIpRange net mask ↔
      net &&& mask < host ∧ host < net ||| ~~~mask) ↔
    mask = 0xfffffffe#32 ∨ net &&& ~~~mask = 0#32 ∧ net ≠ 0xffffffff#32 := by
  have network := toNat_network net mask
  have broadcast := toNat_broadcast net mask
  have hosts : (net &&& ~~~mask).toNat ≤ (~~~mask).toNat := by
    exact Nat.and_le_right
  have point : mask = 0xfffffffe#32 ↔ (~~~mask).toNat = 1 := by
    rw [BitVec.toNat_not, ← BitVec.toNat_inj, BitVec.toNat_ofNat]
    omega
  rw [netdbIpRange, and_iff_right (hostsFrom_increasing _ _), point]
  simp only [mem_hostsFrom, ← BitVec.toNat_inj, ne_eq, BitVec.lt_def, BitVec.le_def, BitVec.toNat_add,
    BitVec.toNat_ofNat]
  generalize (net &&& mask).toNat = base at *
  constructor
  · intro exact
    -- the first host of the network, and the first one of all if the count wraps around
    have first := exact (BitVec.ofNat 32 (base + 1))
    have zero := exact 0#32
    simp only [BitVec.toNat_ofNat] at first zero
    omega
  · omega

/-- The network of 10.0.0.5 with two host bits ends at 10.0.0.7. -/
theorem netdbIpRange_hostBits : netdbIpRange 0x0a000005#32 0xfffffffc#32 = [0x0a000006#32, 0x0a000007#32] ∧
    0x0a000005#32 &&& 0xfffffffc#32 = 0x0a000004#32 ∧ 0x0a000005#32 ||| ~~~0xfffffffc#32 = 0x0a000007#32 := by
  simp [netdbIpRange, hostsFrom]

end Tnm.Netdb
