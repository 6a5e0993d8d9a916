import TkinedRemix.Lib.Insertion

/-!
The links of `ip_discover.tcl`: every node is linked to the first network it belongs to, in the order in which
the networks are sorted. Tcl compares a missing octet as an empty string.
-/

namespace Tkined.Discover

open Lib List

abbrev Dotted := List (Fin 256)

/-- `>` of two octets: numbers as numbers, and a missing octet as the empty string. -/
def octetAbove : Option (Fin 256) → Option (Fin 256) → Bool
  | some first, some second => second < first
  | some _, none => true
  | none, _ => false

def fractionDigits (octet : Fin 256) : Nat := if octet.val < 10 then 1 else if octet.val < 100 then 2 else 3

def thousandths : Dotted → Option Nat
  | [whole] => some (1000 * whole.val)
  | [whole, fraction] => some (1000 * whole.val + fraction.val * 10 ^ (3 - fractionDigits fraction))
  | _ => none

/-- `==` of two texts, which compares numbers as numbers. -/
def sameText (first second : Dotted) : Bool :=
  first == second || ((thousandths first).isSome && thousandths first == thousandths second)

def netmaskCompare (maska maskb : Dotted) : Int :=
  if sameText maska maskb then 0
  else if octetAbove maska[0]? maskb[0]? then 1
  else if octetAbove maska[1]? maskb[1]? then 1
  else if octetAbove maska[2]? maskb[2]? then 1
  else if octetAbove maska[3]? maskb[3]? then 1
  else -1

def binary (octets : Dotted) : Nat :=
  [0, 1, 2, 3].foldl (fun bin i => bin <<< 8 ||| ((octets[i]?).map Fin.val).getD 0) 0

def ipIsMember (ip net mask : Dotted) : Bool := (binary ip &&& binary mask) == (binary net &&& binary mask)

structure Network where
  id : Nat
  address : Dotted
  mask : Dotted
deriving DecidableEq

structure Node where
  id : Nat
  address : Dotted
deriving DecidableEq

def Network.contains (network : Network) (node : Node) : Bool :=
  ipIsMember node.address network.address network.mask

def above (first second : Network) : Prop := netmaskCompare first.address second.address > 0

instance : DecidableRel above := fun _ _ => inferInstanceAs (Decidable (_ > _))

def netidsSorted (networks : List Network) : List Network := insertAll above networks

def createLink (links : List (Nat × Nat)) (first second : Nat) : List (Nat × Nat) :=
  if (first, second) ∈ links then links else links ++ [(first, second)]

def linkNode (sorted : List Network) (links : List (Nat × Nat)) (node : Node) : List (Nat × Nat) :=
  match sorted.find? (·.contains node) with
  | some network => createLink links network.id node.id
  | none => links

/-- The links of the nodes. Those that the route traces add come behind them and take none away. -/
def discoverLinks (networks : List Network) (nodes : List Node) : List (Nat × Nat) :=
  nodes.foldl (linkNode (netidsSorted networks)) []

def maskLength (mask : Dotted) : Nat := ((List.range 32).filter (binary mask).testBit).length

def MostSpecific (networks : List Network) (network : Network) (node : Node) : Prop :=
  network ∈ networks ∧ network.contains node = true ∧
    ∀ other ∈ networks, other.contains node = true → maskLength other.mask ≤ maskLength network.mask

/-- An identifier has one owner, and two networks with netmasks of one length that contain a node are the same. -/
structure Distinct (networks : List Network) (nodes : List Node) : Prop where
  networkIds : (networks.map Network.id).Nodup
  nodeIds : (nodes.map Node.id).Nodup
  lengths : ∀ node ∈ nodes, ∀ first ∈ networks, ∀ second ∈ networks, first.contains node = true →
    second.contains node = true → maskLength first.mask = maskLength second.mask → first = second

/-- The most specific network of a node is above its other networks and above all that chains of `above` reach
from them, and is not reached itself. -/
def Consistent (networks : List Network) (nodes : List Node) : Prop :=
  ∀ node ∈ nodes, ∀ narrow, MostSpecific networks narrow node → ∀ wide ∈ networks, wide.contains node = true →
    wide ≠ narrow → Dominates above networks wide narrow

theorem mem_createLink {links : List (Nat × Nat)} {first second : Nat} {link : Nat × Nat} :
    link ∈ createLink links first second ↔ link ∈ links ∨ link = (first, second) := by
  unfold createLink
  split
  next known =>
    constructor
    · exact .inl
    · rintro (member | rfl)
      · exact member
      · exact known
  next => simp

theorem mem_linkNode {sorted : List Network} {links : List (Nat × Nat)} {node : Node} {link : Nat × Nat} :
    link ∈ linkNode sorted links node ↔ link ∈ links ∨
      ∃ network, sorted.find? (·.contains node) = some network ∧ link = (network.id, node.id) := by
  unfold linkNode
  split
  next network found => simp [mem_createLink, found]
  next missing => simp [missing]

theorem mem_discoverLinks {networks : List Network} {nodes : List Node} {link : Nat × Nat} :
    link ∈ discoverLinks networks nodes ↔ ∃ node ∈ nodes, ∃ network,
      (netidsSorted networks).find? (·.contains node) = some network ∧ link = (network.id, node.id) := by
  have general : ∀ (nodes : List Node) (links : List (Nat × Nat)),
      link ∈ nodes.foldl (linkNode (netidsSorted networks)) links ↔ link ∈ links ∨ ∃ node ∈ nodes, ∃ network,
        (netidsSorted networks).find? (·.contains node) = some network ∧ link = (network.id, node.id) := by
    intro nodes
    induction nodes with
    | nil => simp
    | cons _ _ ih =>
      intro _
      rw [foldl_cons, ih, mem_linkNode, exists_mem_cons_iff, or_assoc]
  rw [discoverLinks, general]
  simp

theorem exists_mostSpecific {networks : List Network} {node : Node}
    (belongs : ∃ network ∈ networks, network.contains node = true) : ∃ network, MostSpecific networks network node := by
  obtain ⟨network, member, contained⟩ := belongs
  obtain ⟨longest, chosen, longer⟩ := (networks.filter (·.contains node)).toFinset.exists_max_image
    (fun network => maskLength network.mask) ⟨network, by simp [member, contained]⟩
  simp only [mem_toFinset, mem_filter] at chosen longer
  exact ⟨longest, chosen.1, chosen.2, fun other otherMember otherContains => longer other ⟨otherMember, otherContains⟩⟩

theorem MostSpecific.unique {networks : List Network} {nodes : List Node} (distinct : Distinct networks nodes)
    {node : Node} (known : node ∈ nodes) {first second : Network} (one : MostSpecific networks first node)
    (other : MostSpecific networks second node) : first = second := by
  have shorter := other.2.2 first one.1 one.2.1
  have longer := one.2.2 second other.1 other.2.1
  exact distinct.lengths node known first one.1 second other.1 one.2.1 other.2.1 (by omega)

/-- The network found first is the most specific one. -/
theorem found_mostSpecific {networks order : List Network} {nodes : List Node} (consistent : Consistent networks nodes)
    (perm : order ~ networks) {node : Node} (known : node ∈ nodes) {narrow : Network}
    (specific : MostSpecific networks narrow node) :
    (netidsSorted order).find? (·.contains node) = some narrow := by
  have present : narrow ∈ netidsSorted order := mem_insertAll.mpr (perm.mem_iff.mpr specific.1)
  cases found : (netidsSorted order).find? (·.contains node) with
  | none => exact absurd specific.2.1 (find?_eq_none.mp found narrow present)
  | some first =>
    congr 1
    by_contra different
    have member : first ∈ networks := perm.mem_iff.mp (mem_insertAll.mp (mem_of_find?_eq_some found))
    have dominates := consistent node known narrow specific first member (by simpa using find?_some found) different
    exact insertAll_shielded dominates (fun _ => perm.mem_iff.mp) present first
      (mem_takeWhile_of_find? specific.2.1 found different) .refl

/-- In every order in which the networks are met each node of a network is linked to the most specific one, exactly
when that one dominates the others. -/
theorem discoverLinks_mostSpecific (networks : List Network) (nodes : List Node) (distinct : Distinct networks nodes) :
    (∀ order, order ~ networks → ∀ node ∈ nodes, (∃ network ∈ networks, network.contains node = true) →
      ∃ network, MostSpecific networks network node ∧ (network.id, node.id) ∈ discoverLinks order nodes) ↔
    Consistent networks nodes := by
  constructor
  · intro linked node known narrow specific wide member contained different
    by_contra exposed
    obtain ⟨order, perm, front⟩ := exists_front (Nodup.of_map _ distinct.networkIds) specific.1 member different exposed
    obtain ⟨network, most, link⟩ := linked order perm node known ⟨wide, member, contained⟩
    cases MostSpecific.unique distinct known most specific
    obtain ⟨owner, ownerKnown, first, found, same⟩ := mem_discoverLinks.mp link
    rw [Prod.mk.injEq] at same
    cases inj_on_of_nodup_map distinct.nodeIds known ownerKnown same.2
    have firstMember : first ∈ networks := perm.mem_iff.mp (mem_insertAll.mp (mem_of_find?_eq_some found))
    cases inj_on_of_nodup_map distinct.networkIds specific.1 firstMember same.1
    exact @find?_ne_of_mem_takeWhile _ _ _ _ (·.contains node) _ contained front found
  · intro consistent order perm node known belongs
    obtain ⟨network, specific⟩ := exists_mostSpecific belongs
    exact ⟨network, specific, mem_discoverLinks.mpr
      ⟨node, known, network, found_mostSpecific consistent perm known specific, rfl⟩⟩

def classA : Network := ⟨1, [10], [255, 0, 0, 0]⟩
def subnet : Network := ⟨2, [10, 1], [255, 255, 0, 0]⟩
def stranger : Network := ⟨3, [9, 2], [255, 255, 0, 0]⟩
def host : Node := ⟨4, [10, 1, 0, 5]⟩

def neighbour : Network := ⟨5, [10, 2], [255, 255, 0, 0]⟩
def hostBeside : Node := ⟨6, [10, 2, 0, 7]⟩

theorem classA_reaches {other : Network} (reached : Reaches above [neighbour, classA, subnet] classA other) :
    other = classA := by
  refine (Relation.reflTransGen_iff_eq ?_).mp reached
  rintro _ ⟨wins, member⟩
  simp only [mem_cons, not_mem_nil, or_false] at member
  rcases member with rfl | rfl | rfl <;> exact absurd wins (by decide)

theorem sample_distinct : Distinct [neighbour, classA, subnet] [host, hostBeside] where
  networkIds := by decide
  nodeIds := by decide
  lengths := by decide

theorem discoverLinks_subnet :
    ∃ network, MostSpecific [neighbour, classA, subnet] network host ∧
      (network.id, host.id) ∈ discoverLinks [subnet, classA, neighbour] [host, hostBeside] := by
  have consistent : Consistent [neighbour, classA, subnet] [host, hostBeside] := by
    have wider : ∀ node ∈ [host, hostBeside], ∀ narrow ∈ [neighbour, classA, subnet],
        ∀ wide ∈ [neighbour, classA, subnet], narrow.contains node = true → wide.contains node = true →
        maskLength wide.mask ≤ maskLength narrow.mask → wide ≠ narrow → wide = classA ∧ above narrow classA := by
      decide
    intro node known narrow specific wide member contained different other reached
    obtain ⟨rfl, wins⟩ := wider node known narrow specific.1 wide member specific.2.1 contained
      (specific.2.2 wide member contained) different
    cases classA_reaches reached
    exact ⟨different, wins⟩
  exact (discoverLinks_mostSpecific _ _ sample_distinct).mpr consistent _ (by decide) host (by decide)
    ⟨subnet, by decide, by decide⟩

/-- The host belongs to the subnet, but a network in front of it pulls the class A network there. -/
theorem discoverLinks_stranger :
    discoverLinks [subnet, stranger, classA] [host] = [(classA.id, host.id)] ∧ subnet.contains host = true ∧
      maskLength classA.mask < maskLength subnet.mask := by
  decide

/-- An octet that the address does not have counts as 0. -/
def maskedOctets (ip mask : Dotted) : Dotted := mask.zipIdx.map fun (m, i) => ((ip[i]?).map (· &&& m)).getD 0

def joinDots (octets : Dotted) : List Char := ['.'].intercalate (octets.map fun octet => Nat.toDigits 10 octet.val)

def splitDots (text : List Char) : Dotted :=
  if text = [] then [] else (splitOn '.' text).map fun part => Fin.ofNat 256 (Nat.ofDigitChars 10 part 0)

def ipNetwork (ip mask : Dotted) : List Char := joinDots ((maskedOctets ip mask).filter (· ≠ 0))

abbrev Address := Fin 256 × Fin 256 × Fin 256 × Fin 256

def Address.octets : Address → Dotted
  | (a, b, c, d) => [a, b, c, d]

def Agree (first second mask : Dotted) : Prop := binary first &&& binary mask = binary second &&& binary mask

/-- No octet of the network is 0 in front of another one. -/
def Leading (ip mask : Address) : Prop :=
  (maskedOctets ip.octets mask.octets).Pairwise fun high low => low ≠ 0 → high ≠ 0

theorem splitDots_joinDots (octets : Dotted) : splitDots (joinDots octets) = octets := by
  cases octets with
  | nil => rfl
  | cons octet octets =>
    have plain : ∀ part ∈ (octet :: octets).map fun octet => Nat.toDigits 10 octet.val, '.' ∉ part := by
      intro part member dot
      obtain ⟨_, _, rfl⟩ := mem_map.mp member
      exact absurd (Nat.isDigit_of_mem_toDigits (by decide) (Nat.le_refl 10) dot) (by decide)
    have parts := splitOn_intercalate '.' plain (cons_ne_nil _ _)
    rw [← joinDots] at parts
    have filled : joinDots (octet :: octets) ≠ [] := by
      intro blank
      rw [blank] at parts
      exact Nat.toDigits_ne_nil (cons.inj parts).1.symm
    rw [splitDots, if_neg filled, parts]
    simp [Function.comp_def]

theorem join_and {first second : Nat} (a b : Fin 256) :
    (first <<< 8 ||| a.val) &&& (second <<< 8 ||| b.val) = (first &&& second) <<< 8 ||| (a &&& b).val := by
  apply Nat.eq_of_testBit_eq
  intro bit
  by_cases high : 8 ≤ bit
  · have small : ∀ octet : Fin 256, octet.val.testBit bit = false := fun octet =>
      Nat.testBit_lt_two_pow (Nat.lt_of_lt_of_le octet.isLt (Nat.pow_le_pow_right (n := 2) (by decide) high))
    simp [small, high]
  · simp [high]

theorem join_inj {first second : Nat} {a b : Fin 256} :
    first <<< 8 ||| a.val = second <<< 8 ||| b.val ↔ first = second ∧ a = b := by
  rw [← Nat.shiftLeft_add_eq_or_of_lt a.isLt, ← Nat.shiftLeft_add_eq_or_of_lt b.isLt]
  omega

theorem agree_iff (first second mask : Dotted) : Agree first second mask ↔ ∀ i ∈ [0, 1, 2, 3],
    (first[i]?).getD 0 &&& (mask[i]?).getD 0 = (second[i]?).getD 0 &&& (mask[i]?).getD 0 := by
  have value : ∀ (octets : Dotted) (i : Nat), ((octets[i]?).map Fin.val).getD 0 = ((octets[i]?).getD 0).val := by
    intro octets i
    cases octets[i]? <;> rfl
  simp only [Agree, binary, foldl, value, join_and, join_inj]
  simp [and_assoc]

theorem ipNetwork_agree_iff (ip mask : Address) :
    Agree ip.octets (splitDots (ipNetwork ip.octets mask.octets)) mask.octets ↔ Leading ip mask := by
  obtain ⟨a, b, c, d⟩ := ip
  obtain ⟨m, n, o, p⟩ := mask
  have again : ∀ octet part : Fin 256, octet &&& part &&& part = octet &&& part := fun octet part =>
    Fin.ext (by simp)
  have none : ∀ part : Fin 256, 0 &&& part = 0 := fun part => Fin.ext (by simp)
  have shape : maskedOctets [a, b, c, d] [m, n, o, p] = [a &&& m, b &&& n, c &&& o, d &&& p] := rfl
  rw [agree_iff, Leading, ipNetwork, splitDots_joinDots]
  simp only [Address.octets, shape]
  by_cases first : a &&& m = 0 <;> by_cases second : b &&& n = 0 <;> by_cases third : c &&& o = 0 <;>
    by_cases fourth : d &&& p = 0 <;> simp [first, second, third, fourth, again, none]

/-- An address is in its network exactly when no octet of it is 0 in front of another one, and of such networks the
texts are the same exactly for the addresses that agree under the mask. -/
theorem ipNetwork_members_iff (ip mask : Address) :
    (ipIsMember ip.octets (splitDots (ipNetwork ip.octets mask.octets)) mask.octets = true ↔ Leading ip mask) ∧
    ∀ other, Leading ip mask → Leading other mask →
      (ipNetwork ip.octets mask.octets = ipNetwork other.octets mask.octets ↔
        Agree ip.octets other.octets mask.octets) := by
  refine ⟨beq_iff_eq.trans (ipNetwork_agree_iff ip mask), fun other leading otherLeading => ?_⟩
  have own := (ipNetwork_agree_iff ip mask).mpr leading
  have others := (ipNetwork_agree_iff other mask).mpr otherLeading
  constructor
  · intro same
    rw [same] at own
    exact own.trans others.symm
  · intro agree
    have masked : ∀ address : Address, maskedOctets address.octets mask.octets =
        [0, 1, 2, 3].map fun i => (address.octets[i]?).getD 0 &&& (mask.octets[i]?).getD 0 := fun _ => rfl
    rw [ipNetwork, ipNetwork, masked, masked, map_congr_left ((agree_iff ..).mp agree)]

theorem ipNetwork_zero :
    ipIsMember [10, 0, 5, 1] (splitDots (ipNetwork [10, 0, 5, 1] [255, 255, 255, 0])) [255, 255, 255, 0] = false := by
  decide

end Tkined.Discover
