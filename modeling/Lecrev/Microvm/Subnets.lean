import Mathlib.Order.CompletePartialOrder
import Lecrev.Microvm.Driver

/-!
# Subnets of tap devices

`buildTapPoolConfigs` cuts an IPv4 network into one subnet per tap device. The addresses are
computed in 32 bits. A product of the number of devices and the size of a subnet that does not fit
is cut off, and so is the size of the network of all addresses. Where neither happens, the check of
the capacity is exact, and the subnets are placed side by side (`Subnets`).

Parsing a network is left to `net/netip`.
-/

namespace Lecrev.Microvm

/-! ## Addresses -/

/-- An IPv4 address, by its bytes. -/
structure IPv4 where
  a : BitVec 8
  b : BitVec 8
  c : BitVec 8
  d : BitVec 8
  deriving DecidableEq, Repr

/-- `ipv4ToUint32`. -/
def ipv4ToUint32 (addr : IPv4) : BitVec 32 :=
  addr.a.setWidth 32 <<< 24 ||| addr.b.setWidth 32 <<< 16 ||| addr.c.setWidth 32 <<< 8 |||
    addr.d.setWidth 32

/-- `uint32ToIPv4`. -/
def uint32ToIPv4 (value : BitVec 32) : IPv4 where
  a := (value >>> 24).setWidth 8
  b := (value >>> 16).setWidth 8
  c := (value >>> 8).setWidth 8
  d := value.setWidth 8

/-- `netip.Addr.String` of an IPv4 address. -/
def IPv4.string (addr : IPv4) : String :=
  toString addr.a.toNat ++ "." ++ toString addr.b.toNat ++ "." ++ toString addr.c.toNat ++ "." ++
    toString addr.d.toNat

/-- A byte in two hexadecimal digits. -/
def hexByte (byte : BitVec 8) : String :=
  .ofList [Nat.digitChar (byte.toNat / 16), Nat.digitChar (byte.toNat % 16)]

/-- `guestMACForIP`. -/
def guestMACForIP (addr : IPv4) : String :=
  "06:00:" ++ hexByte addr.a ++ ":" ++ hexByte addr.b ++ ":" ++ hexByte addr.c ++ ":" ++
    hexByte addr.d

/-- `prefixLengthToMask`. -/
def prefixLengthToMask (bits : ℕ) : String :=
  let mask := if bits > 0 then BitVec.allOnes 32 <<< (32 - bits) else 0
  (uint32ToIPv4 mask).string

@[simp]
theorem ipv4ToUint32_uint32ToIPv4 (value : BitVec 32) :
    ipv4ToUint32 (uint32ToIPv4 value) = value := by
  unfold ipv4ToUint32 uint32ToIPv4
  ext i hi
  simp only [BitVec.getElem_or, BitVec.getElem_shiftLeft, BitVec.getLsbD_setWidth,
    BitVec.getElem_setWidth, BitVec.getLsbD_ushiftRight]
  -- every bit comes from the byte it is in
  grind

theorem uint32ToIPv4_injective : Function.Injective uint32ToIPv4 :=
  Function.LeftInverse.injective ipv4ToUint32_uint32ToIPv4

theorem hexByte_injective : Function.Injective hexByte := by
  have hdigit : ∀ m < 16, ∀ n < 16, Nat.digitChar m = Nat.digitChar n → m = n := by decide
  intro x y h
  obtain ⟨hhigh, hlow⟩ : Nat.digitChar (x.toNat / 16) = Nat.digitChar (y.toNat / 16) ∧
      Nat.digitChar (x.toNat % 16) = Nat.digitChar (y.toNat % 16) := by
    simpa using String.ofList_injective h
  have hx := x.isLt
  have hy := y.isLt
  have hdiv := hdigit _ (by omega) _ (by omega) hhigh
  have hmod := hdigit _ (Nat.mod_lt _ (by decide)) _ (Nat.mod_lt _ (by decide)) hlow
  refine BitVec.eq_of_toNat_eq ?_
  omega

theorem guestMACForIP_injective : Function.Injective guestMACForIP := by
  intro x y h
  have hbytes : hexByte x.a = hexByte y.a ∧ hexByte x.b = hexByte y.b ∧
      hexByte x.c = hexByte y.c ∧ hexByte x.d = hexByte y.d := by
    have hlist := congrArg String.toList h
    simp only [guestMACForIP, hexByte, String.toList_append, String.toList_ofList] at hlist ⊢
    simpa [and_assoc] using hlist
  obtain ⟨ha, hb, hc, hd⟩ := hbytes
  cases x
  cases y
  simp_all [hexByte_injective.eq_iff]

/-! ## Networks -/

/-- An address of either kind. -/
inductive Addr
  | v4 (addr : IPv4)
  | v6 (value : BitVec 128)

/-- `netip.Prefix`. -/
structure NetPrefix where
  addr : Addr
  bits : ℕ

/-- `netip.Prefix.Masked`: the bits after the prefix are cleared. -/
def NetPrefix.masked (network : NetPrefix) : NetPrefix :=
  match network.addr with
  | .v4 addr =>
    { network with
      addr := .v4 (uint32ToIPv4
        (ipv4ToUint32 addr >>> (32 - network.bits) <<< (32 - network.bits))) }
  | .v6 value =>
    { network with addr := .v6 (value >>> (128 - network.bits) <<< (128 - network.bits)) }

/-- The configuration of a device in the subnet that begins at `subnetBase`; its name is set by
`tapPoolConfigs`. -/
def subnetConfig (netmask : String) (subnetBase : BitVec 32) : NetworkConfig :=
  let gateway := uint32ToIPv4 (subnetBase + 1)
  let guest := uint32ToIPv4 (subnetBase + 2)
  { guestMAC := guestMACForIP guest
    guestIP := guest.string
    gatewayIP := gateway.string
    netmask }

/-- `buildTapPoolConfigs`. -/
def buildTapPoolConfigs (parsePrefix : String → Except Err NetPrefix) (devicePrefix : String)
    (count : ℤ) (networkCIDR : String) (subnetPrefix : ℤ) : Except Err (List NetworkConfig) :=
  if count ≤ 0 then .ok []
  else
    let devicePrefix := if trimSpace devicePrefix = "" then "tap" else devicePrefix
    let subnetPrefix := if subnetPrefix ≤ 0 then 30 else subnetPrefix
    match parsePrefix (trimSpace networkCIDR) with
    | .error e =>
      .error (.other ("parse tap network cidr " ++ networkCIDR.quote ++ ": " ++ e.text))
    | .ok network =>
      match network.masked with
      | ⟨.v6 _, _⟩ => .error (.other "tap network cidr must be ipv4")
      | ⟨.v4 addr, bits⟩ =>
        if subnetPrefix < bits ∨ subnetPrefix > 30 then
          .error (.other ("tap subnet prefix must be between " ++ toString bits ++ " and 30"))
        else
          let blockSize := 1#32 <<< (32 - subnetPrefix.toNat)
          let base := ipv4ToUint32 addr
          let networkSize := 1#32 <<< (32 - bits)
          let required := BitVec.ofInt 32 count * blockSize
          if required > networkSize then
            .error (.other ("tap network cidr " ++ addr.string ++ "/" ++ toString bits ++
              " does not have capacity for " ++ toString count ++ " /" ++ toString subnetPrefix ++
              " subnets"))
          else
            let netmask := prefixLengthToMask subnetPrefix.toNat
            .ok (tapPoolConfigs devicePrefix count.toNat fun i =>
              subnetConfig netmask (base + BitVec.ofNat 32 i * blockSize))

/-! ## What is computed -/

/-- The subnet of `s` bits that begins at `net`. -/
def subnet (s net : ℕ) : Set ℕ := Set.Ico net (net + 2 ^ (32 - s))

/-- The device is served by the subnet at `net`: the gateway has its first host address, the guest
the second one. -/
structure Serves (s : ℕ) (cfg : NetworkConfig) (net : ℕ) : Prop where
  gateway : cfg.gatewayIP = (uint32ToIPv4 (.ofNat 32 (net + 1))).string
  guest : cfg.guestIP = (uint32ToIPv4 (.ofNat 32 (net + 2))).string
  netmask : cfg.netmask = prefixLengthToMask s

/-- The network of `b` bits at `base` is cut into subnets of `s` bits for `c` devices. -/
structure Subnets (base b s c : ℕ) (configs : List NetworkConfig) : Prop where
  length_eq : configs.length = c
  taps : (configs.map (·.tapDevice)).Nodup
  macs : (configs.map (·.guestMAC)).Nodup
  placed : ∃ nets : List ℕ, List.Forall₂ (Serves s) configs nets ∧
    (∀ net ∈ nets, 2 ^ (32 - s) ∣ net ∧ subnet s net ⊆ subnet b base) ∧
    nets.Pairwise fun net net' => Disjoint (subnet s net) (subnet s net')

/-- The first address of the network of an address. -/
def networkBase (addr : IPv4) (b : ℕ) : BitVec 32 := ipv4ToUint32 addr >>> (32 - b) <<< (32 - b)

theorem toNat_networkBase (addr : IPv4) (b : ℕ) :
    (networkBase addr b).toNat = (ipv4ToUint32 addr).toNat / 2 ^ (32 - b) * 2 ^ (32 - b) := by
  rw [networkBase, BitVec.toNat_shiftLeft, BitVec.toNat_ushiftRight, Nat.shiftRight_eq_div_pow,
    Nat.shiftLeft_eq, Nat.mod_eq_of_lt]
  exact (Nat.div_mul_le_self _ _).trans_lt (ipv4ToUint32 addr).isLt

theorem networkBase_add_le (addr : IPv4) (b : ℕ) :
    (networkBase addr b).toNat + 2 ^ (32 - b) ≤ 2 ^ 32 := by
  have hdvd : (2 : ℕ) ^ (32 - b) ∣ 2 ^ 32 := Nat.pow_dvd_pow 2 (Nat.sub_le 32 b)
  obtain ⟨blocks, hblocks⟩ := hdvd
  have hlt : (ipv4ToUint32 addr).toNat / 2 ^ (32 - b) < blocks := by
    rw [Nat.div_lt_iff_lt_mul (Nat.two_pow_pos _), mul_comm, ← hblocks]
    exact (ipv4ToUint32 addr).isLt
  rw [toNat_networkBase, ← Nat.succ_mul, hblocks, mul_comm]
  exact Nat.mul_le_mul_left _ hlt

/-- The length of a subnet: without one it is 30 bits. -/
def subnetLength (s : ℕ) : ℕ := if s = 0 then 30 else s

/-- The devices that are configured if the capacity suffices. -/
def subnetConfigs (devicePrefix : String) (c : ℕ) (base : BitVec 32) (s : ℕ) :
    List NetworkConfig :=
  tapPoolConfigs (if trimSpace devicePrefix = "" then "tap" else devicePrefix) c fun i =>
    subnetConfig (prefixLengthToMask s) (base + BitVec.ofNat 32 i * 1#32 <<< (32 - s))

theorem toNat_one_shiftLeft (k : ℕ) : (1#32 <<< k).toNat = 2 ^ k % 2 ^ 32 := by
  rw [BitVec.toNat_shiftLeft, Nat.shiftLeft_eq]
  simp

theorem toNat_required (c k : ℕ) :
    (BitVec.ofInt 32 c * 1#32 <<< k).toNat = c * 2 ^ k % 2 ^ 32 := by
  rw [BitVec.toNat_mul, toNat_one_shiftLeft, BitVec.ofInt_natCast, BitVec.toNat_ofNat,
    ← Nat.mul_mod]

section Build

variable {parsePrefix : String → Except Err NetPrefix} {devicePrefix networkCIDR : String}
  {addr : IPv4} {b s c : ℕ}

/-- The check of the capacity, in 32 bits. -/
theorem buildTapPoolConfigs_eq_ok_iff
    (hparse : parsePrefix (trimSpace networkCIDR) = .ok ⟨.v4 addr, b⟩) (hc : 1 ≤ c) (hbs : b ≤ s)
    (hs : s ≤ 30) {configs : List NetworkConfig} :
    buildTapPoolConfigs parsePrefix devicePrefix c networkCIDR s = .ok configs ↔
      c * 2 ^ (32 - subnetLength s) % 2 ^ 32 ≤ 2 ^ (32 - b) % 2 ^ 32 ∧
        configs = subnetConfigs devicePrefix c (networkBase addr b) (subnetLength s) := by
  have hlength : (if (s : ℤ) ≤ 0 then 30 else (s : ℤ)) = (subnetLength s : ℤ) := by
    unfold subnetLength
    split_ifs <;> omega
  have hrange : ¬ ((subnetLength s : ℤ) < b ∨ (subnetLength s : ℤ) > 30) := by
    unfold subnetLength
    split_ifs <;> omega
  unfold buildTapPoolConfigs
  rw [if_neg (by omega)]
  dsimp only
  rw [hparse, hlength]
  have hmasked : NetPrefix.masked ⟨.v4 addr, b⟩ =
    ⟨.v4 (uint32ToIPv4 (networkBase addr b)), b⟩ := rfl
  dsimp only
  rw [hmasked]
  dsimp only
  rw [if_neg hrange, Int.toNat_natCast, Int.toNat_natCast, ipv4ToUint32_uint32ToIPv4]
  have hrequired : BitVec.ofInt 32 c * 1#32 <<< (32 - subnetLength s) > 1#32 <<< (32 - b) ↔
      2 ^ (32 - b) % 2 ^ 32 < c * 2 ^ (32 - subnetLength s) % 2 ^ 32 := by
    rw [gt_iff_lt, BitVec.lt_def, toNat_required, toNat_one_shiftLeft]
  by_cases hlt : BitVec.ofInt 32 c * 1#32 <<< (32 - subnetLength s) > 1#32 <<< (32 - b)
  · rw [if_pos hlt]
    refine iff_of_false (fun h => by cases h) fun hand => ?_
    exact Nat.not_le_of_lt (hrequired.mp hlt) hand.1
  · rw [if_neg hlt, Except.ok.injEq, and_iff_right (Nat.not_lt.mp (hrequired.not.mp hlt))]
    exact eq_comm

theorem toNat_subnetBase (hfits : c * 2 ^ (32 - s) ≤ 2 ^ (32 - b)) {i : ℕ} (hi : i < c) :
    (networkBase addr b + BitVec.ofNat 32 i * 1#32 <<< (32 - s)).toNat =
      (networkBase addr b).toNat + i * 2 ^ (32 - s) := by
  have hend := networkBase_add_le addr b
  have hlt : i * 2 ^ (32 - s) < 2 ^ (32 - b) :=
    (Nat.mul_lt_mul_of_pos_right hi (Nat.two_pow_pos _)).trans_le hfits
  rw [BitVec.toNat_add, BitVec.toNat_mul, toNat_one_shiftLeft, BitVec.toNat_ofNat, ← Nat.mul_mod,
    Nat.add_mod_mod, Nat.mod_eq_of_lt]
  omega

theorem tapName_injective (devicePrefix : String) :
    Function.Injective fun i : ℕ => devicePrefix ++ toString i := by
  intro i j hij
  have hdigits : Nat.toDigits 10 i = Nat.toDigits 10 j := by
    have hlists := congrArg String.toList hij
    simpa [Nat.toString_eq_ofList_toDigits] using hlists
  calc
    i = Nat.ofDigitChars 10 (Nat.toDigits 10 i) 0 := Nat.ofDigitChars_ten_toDigits.symm
    _ = Nat.ofDigitChars 10 (Nat.toDigits 10 j) 0 := by rw [hdigits]
    _ = j := Nat.ofDigitChars_ten_toDigits

theorem add_block_le {i j : ℕ} (hij : i < j) (base block : ℕ) :
    base + i * block + block ≤ base + j * block := by
  have hle : (i + 1) * block ≤ j * block := Nat.mul_le_mul_right block hij
  rw [Nat.succ_mul] at hle
  omega

/-- **Within the capacity** the network is cut into subnets, one after the other. -/
theorem subnets_subnetConfigs (hbs : b ≤ s) (hfits : c * 2 ^ (32 - s) ≤ 2 ^ (32 - b)) :
    Subnets (networkBase addr b).toNat b s c
      (subnetConfigs devicePrefix c (networkBase addr b) s) := by
  have hbase : ∀ i ∈ List.range c,
      (networkBase addr b + BitVec.ofNat 32 i * 1#32 <<< (32 - s)) =
        BitVec.ofNat 32 ((networkBase addr b).toNat + i * 2 ^ (32 - s)) := by
    intro i hi
    rw [← toNat_subnetBase hfits (List.mem_range.mp hi), BitVec.ofNat_toNat, BitVec.setWidth_eq]
  refine ⟨?_, ?_, ?_, ?_⟩
  · simp [subnetConfigs, tapPoolConfigs]
  · rw [subnetConfigs, tapPoolConfigs, List.map_map]
    exact List.nodup_range.map (tapName_injective _)
  · rw [subnetConfigs, tapPoolConfigs, List.map_map]
    refine List.nodup_range.map_on fun i hi j hj hij => ?_
    have hguest := uint32ToIPv4_injective (guestMACForIP_injective hij)
    have hnet := congrArg BitVec.toNat ((BitVec.add_left_inj _).mp hguest)
    rw [toNat_subnetBase hfits (List.mem_range.mp hi),
      toNat_subnetBase hfits (List.mem_range.mp hj)] at hnet
    exact Nat.eq_of_mul_eq_mul_right (Nat.two_pow_pos _) (Nat.add_left_cancel hnet)
  · refine ⟨(List.range c).map fun i => (networkBase addr b).toNat + i * 2 ^ (32 - s), ?_, ?_, ?_⟩
    · rw [subnetConfigs, tapPoolConfigs, List.forall₂_map_left_iff, List.forall₂_map_right_iff,
        List.forall₂_same]
      intro i hi
      constructor
      · simp [subnetConfig, hbase i hi, BitVec.ofNat_add]
      · simp [subnetConfig, hbase i hi, BitVec.ofNat_add]
      · rfl
    · intro net hnet
      obtain ⟨i, hi, rfl⟩ := List.mem_map.mp hnet
      have hend := (add_block_le (List.mem_range.mp hi) (networkBase addr b).toNat
        (2 ^ (32 - s))).trans (Nat.add_le_add_left hfits _)
      refine ⟨?_, Set.Ico_subset_Ico (Nat.le_add_right _ _) hend⟩
      have hdvd : (2 : ℕ) ^ (32 - s) ∣ 2 ^ (32 - b) :=
        Nat.pow_dvd_pow 2 (Nat.sub_le_sub_left hbs 32)
      rw [toNat_networkBase]
      exact Nat.dvd_add (hdvd.mul_left _) (Nat.dvd_mul_left _ _)
    · refine List.pairwise_map.mpr (List.pairwise_lt_range.imp fun {i j} hij => ?_)
      refine Set.disjoint_left.mpr fun x hx hx' => ?_
      exact absurd (hx.2.trans_le (add_block_le hij _ _)) (Nat.not_lt.mpr hx'.1)

end Build

/-! ## When the check is exact -/

/-- The capacity is checked correctly: nothing is cut off, or what is left is still refused. -/
def CapacityChecked (c b s : ℕ) : Prop :=
  if b = 0 then
    if s = 0 then c ≠ 1 ∧ ¬ 2 ^ 30 ∣ c
    else c * 2 ^ (32 - s) = 2 ^ 32 ∨ 2 ^ 32 < c * 2 ^ (32 - s) ∧ ¬ 2 ^ 32 ∣ c * 2 ^ (32 - s)
  else c * 2 ^ (32 - s) < 2 ^ 32 ∨ 2 ^ (32 - b) < c * 2 ^ (32 - s) % 2 ^ 32

theorem capacityChecked_iff {c b s : ℕ} (hc : 1 ≤ c) (hbs : b ≤ s) :
    (c * 2 ^ (32 - subnetLength s) % 2 ^ 32 ≤ 2 ^ (32 - b) % 2 ^ 32 ↔
      c * 2 ^ (32 - s) ≤ 2 ^ (32 - b)) ↔ CapacityChecked c b s := by
  unfold CapacityChecked subnetLength
  by_cases hb : b = 0
  · subst hb
    by_cases hs : s = 0
    · simp only [hs, if_true]
      omega
    · simp only [hs, if_true, if_false]
      have hpos : 0 < c * 2 ^ (32 - s) := Nat.mul_pos hc (Nat.two_pow_pos _)
      generalize c * 2 ^ (32 - s) = n at *
      omega
  · have hs : s ≠ 0 := by omega
    have hlt : (2 : ℕ) ^ (32 - b) < 2 ^ 32 := Nat.pow_lt_pow_right (by decide) (by omega)
    simp only [hb, hs, if_false]
    generalize c * 2 ^ (32 - s) = n at *
    generalize (2 : ℕ) ^ (32 - b) = m at *
    omega

/-- What is asked of `buildTapPoolConfigs`: it succeeds within the capacity, and then the network is
cut into subnets. -/
structure Allocates (r : Except Err (List NetworkConfig)) (base b s c : ℕ) : Prop where
  succeeds_iff : (∃ configs, r = .ok configs) ↔ c * 2 ^ (32 - s) ≤ 2 ^ (32 - b)
  subnets : ∀ configs, r = .ok configs → Subnets base b s c configs

/-- The subnets of the tap devices are allocated as they should be exactly if the capacity is
checked correctly. -/
theorem tap_subnets_iff {parsePrefix : String → Except Err NetPrefix}
    {devicePrefix networkCIDR : String} {addr : IPv4} {b s c : ℕ}
    (hparse : parsePrefix (trimSpace networkCIDR) = .ok ⟨.v4 addr, b⟩) (hc : 1 ≤ c) (hbs : b ≤ s)
    (hs : s ≤ 30) :
    Allocates (buildTapPoolConfigs parsePrefix devicePrefix c networkCIDR s)
      (networkBase addr b).toNat b s c ↔ CapacityChecked c b s := by
  rw [← capacityChecked_iff hc hbs]
  have hsucceeds : (∃ configs, buildTapPoolConfigs parsePrefix devicePrefix c networkCIDR s =
      .ok configs) ↔ c * 2 ^ (32 - subnetLength s) % 2 ^ 32 ≤ 2 ^ (32 - b) % 2 ^ 32 := by
    simp only [buildTapPoolConfigs_eq_ok_iff hparse hc hbs hs, exists_and_left, exists_eq, and_true]
  constructor
  · intro h
    rw [← hsucceeds]
    exact h.succeeds_iff
  · intro h
    refine ⟨hsucceeds.trans h, fun configs hconfigs => ?_⟩
    obtain ⟨hle, rfl⟩ := (buildTapPoolConfigs_eq_ok_iff hparse hc hbs hs).mp hconfigs
    have hfits := h.mp hle
    -- one subnet of all addresses is required as one of four, and that is refused
    have hlength : subnetLength s = s := by
      unfold subnetLength at hle ⊢
      split_ifs at hle ⊢ with hzero
      · subst hzero
        obtain rfl : b = 0 := by omega
        omega
      · rfl
    rw [hlength]
    exact subnets_subnetConfigs hbs hfits

namespace SubnetsSample

def parsePrivate (_ : String) : Except Err NetPrefix := .ok ⟨.v4 ⟨172, 16, 0, 0⟩, 24⟩

def parseAll (_ : String) : Except Err NetPrefix := .ok ⟨.v4 ⟨0, 0, 0, 0⟩, 0⟩

end SubnetsSample

open SubnetsSample in
theorem tap_subnets_iff_sample :
    CapacityChecked 64 24 30 ∧
      Allocates (buildTapPoolConfigs parsePrivate "tap" 64 "172.16.0.0/24" 30)
        (networkBase ⟨172, 16, 0, 0⟩ 24).toNat 24 30 64 := by
  have hchecked : CapacityChecked 64 24 30 := by
    unfold CapacityChecked
    decide
  exact ⟨hchecked, (tap_subnets_iff (b := 24) (s := 30) (c := 64) rfl (by decide) (by decide)
    (by decide)).mpr hchecked⟩

open SubnetsSample in
/-- One device in the network of all addresses is refused, as the size of the network is computed as
zero. -/
theorem not_tap_subnets :
    ¬ ∀ (parsePrefix : String → Except Err NetPrefix) (devicePrefix networkCIDR : String)
      (addr : IPv4) (b s c : ℕ), parsePrefix (trimSpace networkCIDR) = .ok ⟨.v4 addr, b⟩ →
      1 ≤ c → b ≤ s → s ≤ 30 →
        Allocates (buildTapPoolConfigs parsePrefix devicePrefix c networkCIDR s)
          (networkBase addr b).toNat b s c := by
  intro hall
  have hallocates := hall parseAll "tap" "0.0.0.0/0" ⟨0, 0, 0, 0⟩ 0 30 1 rfl (by decide) (by decide)
    (by decide)
  obtain ⟨configs, hconfigs⟩ := hallocates.succeeds_iff.mpr (by decide)
  have hle := ((buildTapPoolConfigs_eq_ok_iff (b := 0) (s := 30) (c := 1) rfl (by decide)
    (by decide) (by decide)).mp hconfigs).1
  exact absurd hle (by decide)

end Lecrev.Microvm
