import AddressMap.Proofs.Elaboration.Soundness
import Mathlib.Algebra.Group.Nat.Defs
import Mathlib.Data.List.Pairwise

/-!
# Addresses of mapped bytes

A byte of a memory map has the address at which the map begins, plus the offset of its instance or
array, plus its number in there. Each of the three is below two to the power of sixty-four, but the
base is not compared with the size. The main statement is that in a built map every byte has an
address of sixty-four bits of its own exactly if the map ends by the last such address. Otherwise
bytes still have different addresses if the addresses behind the last one begin again from zero.
-/

namespace AddressMap

set_option autoImplicit false

instance {α : Type} : Std.Symm (@Placed.Apart α) :=
  ⟨fun _ _ => Placed.apart_comm.1⟩

namespace MemoryMap

variable {map : MemoryMap} {entry other : Entry Instance} {byte index : Nat}

/-- An instance or an array of the map takes so many bytes that there is one with this number. -/
def HasByte (map : MemoryMap) (entry : Entry Instance) (byte : Nat) : Prop :=
  entry ∈ map.layout.items.map Placed.item ∧ byte < Sited.size entry

def address (map : MemoryMap) (entry : Entry Instance) (byte : Nat) : Nat :=
  map.base + Sited.offset entry + byte

/-- The map ends by the last address of sixty-four bits, and each of its bytes has such an address
for itself. -/
structure Addressed (map : MemoryMap) : Prop where
  within : map.base + map.size ≤ 2 ^ 64
  bounded : ∀ entry byte, map.HasByte entry byte → map.address entry byte < 2 ^ 64
  distinct : ∀ entry byte other index, map.HasByte entry byte → map.HasByte other index →
    map.address entry byte = map.address other index → entry = other ∧ byte = index

variable {catalog : Catalog}

theorem size_lt_two_pow (well : map.WellFormed catalog) : map.size < 2 ^ 64 := by
  rw [well.size]
  exact Nat.lt_succ_of_le well.layout.bounded

theorem byte_lt_size (well : map.WellFormed catalog) (has : map.HasByte entry byte) :
    Sited.offset entry + byte < map.size := by
  obtain ⟨member, below⟩ := has
  obtain ⟨placed, present, rfl⟩ := List.mem_map.1 member
  obtain ⟨start, size⟩ := well.layout.sited placed present
  have stop := Layout.stop_le_top present
  have covered := well.layout.covered
  have same := well.size
  unfold Placed.stop at stop
  omega

/-- Two entries that take the same byte of the map are one. -/
theorem same_of_offsets_eq (well : map.WellFormed catalog) (has : map.HasByte entry byte)
    (hasOther : map.HasByte other index)
    (same : Sited.offset entry + byte = Sited.offset other + index) :
    entry = other ∧ byte = index := by
  obtain ⟨member, below⟩ := has
  obtain ⟨memberOther, belowOther⟩ := hasOther
  obtain ⟨placed, present, rfl⟩ := List.mem_map.1 member
  obtain ⟨rival, presentOther, rfl⟩ := List.mem_map.1 memberOther
  have single : placed = rival := by
    by_contra differs
    have apart := well.layout.valid.apart.forall present presentOther differs
    obtain ⟨start, size⟩ := well.layout.sited placed present
    obtain ⟨startOther, sizeOther⟩ := well.layout.sited rival presentOther
    unfold Placed.Apart Placed.stop at apart
    omega
  subst single
  exact ⟨rfl, by omega⟩

/-- In a built map every byte has an address of sixty-four bits for itself exactly if the map ends
by the last one. In any case the bytes lie within the size, which is such a number, and no two have
the same address modulo two to the power of sixty-four. -/
theorem bytes_addressed_iff {defaults : MapDefaults} {decl : Decl}
    (built : MemoryMap.ofDecl catalog defaults decl = .ok map) :
    (map.Addressed ↔ map.base + map.size ≤ 2 ^ 64) ∧ map.size < 2 ^ 64 ∧
      ∀ entry byte, map.HasByte entry byte → Sited.offset entry + byte < map.size ∧
        ∀ other index, map.HasByte other index →
          map.address entry byte % 2 ^ 64 = map.address other index % 2 ^ 64 →
            entry = other ∧ byte = index := by
  have well := well_formed_of_built built
  have small := size_lt_two_pow well
  refine ⟨⟨Addressed.within, fun within => ⟨within, ?_, ?_⟩⟩, small, ?_⟩
  · intro entry byte has
    have below := byte_lt_size well has
    unfold address
    omega
  · intro entry byte other index has hasOther same
    unfold address at same
    exact same_of_offsets_eq well has hasOther (by omega)
  · intro entry byte has
    have below := byte_lt_size well has
    refine ⟨below, fun other index hasOther same => ?_⟩
    have belowOther := byte_lt_size well hasOther
    unfold address at same
    exact same_of_offsets_eq well has hasOther (by omega)

def timerBlock : Component where
  header := ⟨"timer", Path.root "timer", [], .readWrite, .bits⟩
  width := 32
  size := 4
  layout := { extent := some 4 }

def timerMap (base : String) : Decl where
  kind := .memoryMap
  attrs := .ofList [("name", "bus"), ("base", base)]
  children := [{ kind := .componentInstance, attrs := .ofList [("name", "timer")] }]

/-- A block of sixteen bytes has addresses up to the very last one. -/
theorem bytes_of_last_block_addressed :
    ∃ map, MemoryMap.ofDecl ⟨[timerBlock]⟩ {} (timerMap "0xffff_ffff_ffff_fff0") = .ok map ∧
      map.base + map.size = 2 ^ 64 ∧ map.Addressed := by
  have ends : (MemoryMap.ofDecl ⟨[timerBlock]⟩ {} (timerMap "0xffff_ffff_ffff_fff0")).map
      (fun map => map.base + map.size) = .ok (2 ^ 64) := by decide +kernel
  obtain ⟨map, built, last⟩ := exists_of_map_eq_ok ends
  exact ⟨map, built, last, (bytes_addressed_iff built).1.2 (Nat.le_of_eq last)⟩

/-- The same block eight bytes further up is built as well, but half of it is behind the last
address. -/
theorem bytes_of_block_behind_last_address :
    ∃ map entry,
      MemoryMap.ofDecl ⟨[timerBlock]⟩ {} (timerMap "0xffff_ffff_ffff_fff8") = .ok map ∧
        map.base + map.size = 2 ^ 64 + 8 ∧ map.HasByte entry 8 ∧ map.address entry 8 = 2 ^ 64 ∧
        ¬ map.Addressed := by
  have facts : (MemoryMap.ofDecl ⟨[timerBlock]⟩ {} (timerMap "0xffff_ffff_ffff_fff8")).map
      (fun map => (map.base + map.size, map.base,
        map.layout.items.map fun placed => (Sited.offset placed.item, Sited.size placed.item))) =
      .ok (2 ^ 64 + 8, 2 ^ 64 - 8, [(0, 16)]) := by decide +kernel
  obtain ⟨map, built, same⟩ := exists_of_map_eq_ok facts
  obtain ⟨past, rest⟩ := Prod.mk.inj same
  obtain ⟨base, places⟩ := Prod.mk.inj rest
  obtain ⟨placed, present, place⟩ := List.mem_map.1 (places ▸ List.mem_singleton_self _)
  obtain ⟨offset, size⟩ := Prod.mk.inj place
  refine ⟨map, placed.item, built, past, ⟨List.mem_map_of_mem present, by omega⟩, ?_, ?_⟩
  · unfold address
    omega
  · intro addressed
    have within := addressed.within
    omega

end MemoryMap

end AddressMap
