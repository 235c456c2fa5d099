import AddressMap.Proofs.Elaboration.Soundness
import AddressMap.Proofs.Element.Copies

/-!
# Candidates of declarations

What a container has to do with the candidates of its children is its path, its kind only when it
refuses one. A candidate states an offset just when its declaration gives one, and in components
and registers every candidate occupies something.
-/

namespace AddressMap

set_option autoImplicit false

def Decl.withChildren (decl : Decl) (children : List Decl) : Decl :=
  { decl with children }

def Decl.isUnplaced (decl : Decl) : Bool :=
  (decl.get? .offset).isNone

namespace Site

variable {decl : Decl} {children : List Decl} {path : Path}

theorem read_attribute?_with_children {α : Type} (attr : Attribute) (read? : String → Option α)
    (cause : String → AttributeFault) :
    readAttribute? ⟨decl.withChildren children, path⟩ attr read? cause =
      readAttribute? ⟨decl, path⟩ attr read? cause :=
  rfl

theorem number?_with_children (attr : Attribute) :
    number? ⟨decl.withChildren children, path⟩ attr = number? ⟨decl, path⟩ attr :=
  read_attribute?_with_children attr readNumeral? .notNumber

theorem titled_with_children {above : Context} {header : Header} :
    Titled ⟨decl.withChildren children, path⟩ above header ↔ Titled ⟨decl, path⟩ above header := by
  have same : Site.header ⟨decl.withChildren children, path⟩ header.name above =
      Site.header ⟨decl, path⟩ header.name above := by
    unfold Site.header truth? format?
    simp only [read_attribute?_with_children]
    rfl
  constructor
  · exact fun titled => ⟨titled.keys, titled.name, same.symm.trans titled.header⟩
  · exact fun titled => ⟨titled.keys, titled.name, same.trans titled.header⟩

end Site

namespace Family

variable {α : Type} [Placeable α] {family : Family α} {container other : Site} {above : Context}
  {decl : Decl} {candidate : Candidate (Entry α)}

theorem entry_of_decl_congr (path : container.path = other.path) :
    family.entryOfDecl container above decl = .ok candidate ↔
      family.entryOfDecl other above decl = .ok candidate := by
  rw [entry_of_decl_eq_ok, entry_of_decl_eq_ok, path]

def ReadsOffset (family : Family α) : Prop :=
  ∀ container above decl candidate, family.ofDecl container above decl = .ok candidate →
    (decl.get? .offset).map readNumeral? = candidate.offset?.map some

theorem ReadsOffset.offset_of_entry (reads : family.ReadsOffset)
    (built : family.entryOfDecl container above decl = .ok candidate) :
    (decl.get? .offset).map readNumeral? = candidate.offset?.map some := by
  rcases entry_of_decl_eq_ok.1 built with ⟨-, inner, made, rfl⟩ | ⟨-, -, inner, made, rfl⟩
  · exact reads _ _ _ _ made
  · obtain ⟨parts, rule, rfl⟩ := array_of_decl_eq_ok.1 made
    obtain ⟨-, offset, -, -⟩ := Site.array_shape_eq_ok.1 rule.shape
    exact Site.number?_eq_ok.1 offset

theorem ReadsOffset.is_unplaced (reads : family.ReadsOffset)
    (built : family.entryOfDecl container above decl = .ok candidate) :
    decl.isUnplaced = candidate.offset?.isNone := by
  have same := congrArg Option.isNone (reads.offset_of_entry built)
  simp only [Option.isNone_map] at same
  exact same

def Occupies [Sited α] (family : Family α) (good : Path → α → Prop) : Prop :=
  family.Yields good ∧ ∀ container element, good container element → 0 < Sited.size element

theorem Occupies.size_pos_of_entry [Sited α] {good : Path → α → Prop}
    (occupies : family.Occupies good)
    (built : family.entryOfDecl container above decl = .ok candidate) : 0 < candidate.size := by
  obtain ⟨yields, positive⟩ := occupies
  obtain ⟨well, size⟩ := yields.well_formed_of_entry built
  rw [size]
  cases entry : candidate.item with
  | single element =>
      rw [entry] at well
      exact positive _ _ well
  | array elements =>
      rw [entry] at well
      obtain ⟨only, items⟩ := well.template
      have member : only ∈ elements.frame.items := by
        rw [items]
        exact List.mem_singleton_self only
      have template := positive _ _ (well.frame.good only member)
      have inFrame := ElementArray.template_end_le_framesize well member
      have frame : 0 < elements.framesize := by omega
      show 0 < elements.size
      rw [well.size]
      exact Nat.mul_pos frame well.repeated

end Family

theorem Field.reads_offset : Field.family.ReadsOffset := fun _ _ _ _ built =>
  Site.number?_eq_ok.1 (Field.of_decl_eq_ok.1 built).offset

theorem Field.occupies : Field.family.Occupies Field.WellFormed :=
  ⟨Field.yields, fun _ _ well => well.positive⟩

theorem Register.reads_offset (wordWidth : Nat) : (Register.family wordWidth).ReadsOffset :=
  fun _ _ _ _ built => Site.number?_eq_ok.1 (Register.of_decl_eq_ok.1 built).offset

theorem Register.occupies {wordWidth : Nat} (word : IsWordWidth wordWidth) :
    (Register.family wordWidth).Occupies (Register.WellFormed wordWidth) :=
  ⟨Register.yields word, fun _ _ _ => Nat.one_pos⟩

theorem Instance.reads_offset (catalog : Catalog) : (Instance.family catalog).ReadsOffset :=
  fun _ _ _ _ built => Site.number?_eq_ok.1 (Instance.of_decl_eq_ok.1 built).offset

end AddressMap
