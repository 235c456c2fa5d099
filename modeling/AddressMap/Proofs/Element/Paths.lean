import AddressMap.Proofs.Elaboration.Soundness

/-!
# Paths of elements

The path of a root is its name, and every other element has the path of the element around it with
its own name behind. The paths inside an element begin with its own, and siblings differ by their
names, so the paths inside two siblings part where the siblings do. No two elements of a design have
the same path.
-/

namespace AddressMap

set_option autoImplicit false

theorem Path.parent?_child {path : Path} (nonempty : path.segments ≠ []) (name : String) :
    (path.child name).parent? = some path := by
  have long : ¬ (path.child name).segments.length ≤ 1 := by
    have positive := List.length_pos_iff.2 nonempty
    rw [segments_child, List.length_append, List.length_singleton]
    omega
  rw [parent?, if_neg long, segments_child, List.dropLast_concat]

namespace Element

/-- The first element stands so many levels below the second one. -/
inductive Below : Nat → Element → Element → Prop where
  | self (element : Element) : Below 0 element element
  | deeper {levels : Nat} {inner child outer : Element} (member : child ∈ outer.children)
      (below : Below levels inner child) : Below (levels + 1) inner outer

structure Labels (element : Element) : Prop where
  path : ∀ child ∈ element.children, child.path = element.path.child child.name
  distinct : (element.children.map name).Nodup

section WellFormed

variable {α : Type} [Placeable α] [Sited α] {good : Path → α → Prop} {container : Path}

theorem labels_of_layout {good : α → Prop} {element : Element} {layout : Layout α}
    {toElement : α → Element} (children : element.children = layout.elements toElement)
    (seats : layout.Seats good)
    (header : ∀ item, (toElement item).header = Placeable.header item)
    (path : ∀ item, good item →
      (Placeable.header item).path = element.path.child (Placeable.header item).name) :
    element.Labels := by
  have paths : ∀ placed ∈ layout.items,
      (toElement placed.item).path = element.path.child (toElement placed.item).name := by
    intro placed member
    rw [Element.path, Element.name, header]
    exact path placed.item (seats.good placed member)
  constructor
  · intro child member
    rw [children] at member
    obtain ⟨placed, present, rfl⟩ := mem_elements member
    exact paths placed present
  · have names : (layout.elements toElement).map name =
        layout.items.map fun placed => (Placeable.header placed.item).path.leaf := by
      rw [Layout.elements, List.map_map]
      apply List.map_congr_left
      intro placed member
      have led := congrArg Path.leaf (paths placed member)
      rw [Path.leaf_child, Element.path, header] at led
      exact led.symm
    rw [children, names]
    exact seats.distinct

omit [Sited α] in
theorem header_to_element {single : α → Element} {array : ElementArray α → Element}
    (singles : ∀ element, (single element).header = Placeable.header element)
    (arrays : ∀ elements, (array elements).header = elements.header) (entry : Entry α) :
    (entry.toElement single array).header = Placeable.header entry := by
  cases entry with
  | single element => exact singles element
  | array elements => exact arrays elements

theorem path_of_entry
    (path : ∀ item, good container item →
      (Placeable.header item).path = container.child (Placeable.header item).name)
    (entry : Entry α) (well : entry.WellFormed good container) :
    (Placeable.header entry).path = container.child (Placeable.header entry).name := by
  cases entry with
  | single element => exact path element well
  | array elements => exact well.path

end WellFormed

variable {wordWidth : Nat} {catalog : Catalog} {element inner : Element}

theorem labels_of_well_formed (well : element.WellFormedIn wordWidth catalog) :
    element.Labels := by
  cases element with
  | component element =>
      exact labels_of_layout rfl well.1.layout.toSeats
        (header_to_element (fun _ => rfl) fun _ => rfl)
        (path_of_entry fun _ register => register.path)
  | register element =>
      obtain ⟨container, well⟩ := well
      exact labels_of_layout rfl well.layout.toSeats
        (header_to_element (fun _ => rfl) fun _ => rfl)
        (path_of_entry fun _ field => field.path)
  | memoryMap element =>
      exact labels_of_layout rfl well.layout.toSeats
        (header_to_element (fun _ => rfl) fun _ => rfl)
        (path_of_entry fun _ placed => placed.path)
  | registerArray element =>
      obtain ⟨container, well⟩ := well
      exact labels_of_layout rfl well.frame.toSeats (fun _ => rfl) fun _ register => register.path
  | fieldArray element =>
      obtain ⟨container, well⟩ := well
      exact labels_of_layout rfl well.frame.toSeats (fun _ => rfl) fun _ field => field.path
  | instanceArray element =>
      obtain ⟨container, well⟩ := well
      exact labels_of_layout rfl well.frame.toSeats (fun _ => rfl) fun _ placed => placed.path
  | field element =>
      obtain ⟨container, well⟩ := well
      constructor
      · intro child member
        obtain ⟨value, present, rfl⟩ := List.mem_map.1 member
        exact (well.values value present).path
      · have names : (field element).children.map name =
            element.values.map (·.header.name) := List.map_map
        rw [names]
        exact well.distinct
  | enumValue element | componentInstance element => exact ⟨nofun, List.nodup_nil⟩

/-- The path of an element begins with that of each element around it. -/
theorem prefix_of_mem_preorder (labels : ∀ outer ∈ element.preorder, outer.Labels)
    (member : inner ∈ element.preorder) : element.path.segments <+: inner.path.segments := by
  induction element using induction_on_children with
  | step element ih =>
      have here := labels element (mem_preorder_self element)
      rw [preorder_eq] at member
      rcases List.mem_cons.1 member with rfl | below
      · exact List.prefix_rfl
      · obtain ⟨child, present, inside⟩ := List.mem_flatMap.1 below
        have deeper := ih child present
          (fun outer around => labels outer (mem_preorder_of_child present around)) inside
        rw [here.path child present, Path.segments_child] at deeper
        exact (List.prefix_append _ _).trans deeper

theorem exists_below_of_mem_preorder (member : inner ∈ element.preorder) :
    ∃ levels, Below levels inner element := by
  induction element using induction_on_children with
  | step element ih =>
      rw [preorder_eq] at member
      rcases List.mem_cons.1 member with rfl | below
      · exact ⟨0, .self inner⟩
      · obtain ⟨child, present, inside⟩ := List.mem_flatMap.1 below
        obtain ⟨levels, deeper⟩ := ih child present inside
        exact ⟨levels + 1, .deeper present deeper⟩

theorem depth_of_below {levels : Nat} (labels : ∀ outer ∈ element.preorder, outer.Labels)
    (below : Below levels inner element) : inner.path.depth = element.path.depth + levels := by
  induction below with
  | self element => rfl
  | @deeper levels inner child outer member below ih =>
      have here := labels outer (mem_preorder_self outer)
      have deeper := ih fun around inside => labels around (mem_preorder_of_child member inside)
      rw [here.path child member, Path.depth_child] at deeper
      omega

/-- Inside siblings with different names no path occurs twice, if none does inside each. -/
theorem paths_distinct_among {elements : List Element} {container : Path}
    (each : ∀ element ∈ elements, (element.preorder.map path).Nodup)
    (labels : ∀ element ∈ elements, ∀ outer ∈ element.preorder, outer.Labels)
    (siblings : ∀ element ∈ elements, element.path = container.child element.name)
    (distinct : (elements.map name).Nodup) :
    ((elements.flatMap preorder).map path).Nodup := by
  rw [List.map_flatMap, List.nodup_flatMap]
  constructor
  · exact each
  · apply List.Pairwise.imp_of_mem _ (List.pairwise_map.1 distinct)
    intro first second firstMember secondMember different
    show List.Disjoint (first.preorder.map path) (second.preorder.map path)
    rw [List.disjoint_left]
    intro shared inFirst inSecond
    apply different
    obtain ⟨left, leftInside, leftPath⟩ := List.mem_map.1 inFirst
    obtain ⟨right, rightInside, rightPath⟩ := List.mem_map.1 inSecond
    have leftBegins := prefix_of_mem_preorder (labels first firstMember) leftInside
    have rightBegins := prefix_of_mem_preorder (labels second secondMember) rightInside
    rw [leftPath, siblings first firstMember] at leftBegins
    rw [rightPath, siblings second secondMember] at rightBegins
    -- Both siblings stand at one depth, so of the shared path they are the same beginning.
    have same : (container.child first.name).segments = (container.child second.name).segments := by
      apply (List.prefix_of_prefix_length_le leftBegins rightBegins _).eq_of_length <;> simp
    have leaves := congrArg Path.leaf (congrArg Path.mk same)
    rwa [Path.leaf_child, Path.leaf_child] at leaves

theorem paths_distinct (labels : ∀ outer ∈ element.preorder, outer.Labels) :
    (element.preorder.map path).Nodup := by
  induction element using induction_on_children with
  | step element ih =>
      have here := labels element (mem_preorder_self element)
      have inside : ∀ child ∈ element.children, ∀ outer ∈ child.preorder, outer.Labels :=
        fun child member outer around => labels outer (mem_preorder_of_child member around)
      rw [preorder_eq, List.map_cons, List.nodup_cons]
      constructor
      · intro again
        obtain ⟨inner, below, same⟩ := List.mem_map.1 again
        obtain ⟨child, member, deeper⟩ := List.mem_flatMap.1 below
        have begins := (prefix_of_mem_preorder (inside child member) deeper).length_le
        rw [here.path child member, same, Path.segments_child, List.length_append] at begins
        rw [List.length_singleton] at begins
        omega
      · exact paths_distinct_among (fun child member => ih child member (inside child member))
          inside here.path here.distinct

end Element

namespace Design

variable {defaults : MapDefaults} {decls : List Decl} {design : Design}

theorem labels_of_mem_elements (well : design.WellFormed) :
    ∀ element ∈ design.elements, element.Labels := by
  intro element member
  obtain ⟨wordWidth, wellIn⟩ := well_formed_in_of_mem_elements well member
  exact Element.labels_of_well_formed wellIn

theorem mem_elements_of_root {root element : Element} (present : root ∈ design.roots)
    (inside : element ∈ root.preorder) : element ∈ design.elements :=
  List.mem_flatMap.2 ⟨root, present, inside⟩

theorem mem_elements_of_child {element child : Element} (member : element ∈ design.elements)
    (inside : child ∈ element.children) : child ∈ design.elements := by
  obtain ⟨root, present, around⟩ := List.mem_flatMap.1 member
  have below := Element.mem_preorder_of_child inside (Element.mem_preorder_self child)
  exact mem_elements_of_root present (Element.mem_preorder_trans around below)

theorem path_of_root (well : design.WellFormed) :
    ∀ root ∈ design.roots, root.path = Path.root root.name := by
  intro root member
  rcases List.mem_append.1 member with first | later
  · obtain ⟨component, known, rfl⟩ := List.mem_map.1 first
    exact (well.components component known).path
  · obtain ⟨map, known, rfl⟩ := List.mem_map.1 later
    exact (well.memoryMaps map known).path

theorem root_names_distinct (well : design.WellFormed) :
    (design.roots.map Element.name).Nodup := by
  have same : design.roots.map Element.name = design.rootNames := by
    apply List.map_congr_left
    intro root member
    rw [path_of_root well root member, Path.leaf_root]
  rw [same]
  exact well.distinct

/-- The paths of a design tell its elements apart and say where each stands. -/
structure UniquePaths (design : Design) : Prop where
  distinct : (design.elements.map Element.path).Nodup
  root : ∀ root ∈ design.roots, root.path = Path.root root.name ∧ root.path.parent? = none
  inside : ∀ element ∈ design.elements, ∀ child ∈ element.children,
    child.path = element.path.child child.name ∧ child.path.parent? = some element.path
  nested : ∀ element ∈ design.elements, ∃ root ∈ design.roots, ∃ levels,
    Element.Below levels element root
  depth : ∀ root ∈ design.roots, ∀ levels element,
    Element.Below levels element root → element.path.depth = levels + 1

/-- No two elements have the same path. A root goes by its name, and every other element by the path
of the element around it with its own name behind. The depth of a path is that of the element. -/
theorem paths_identify_elements (built : Design.ofDecls defaults decls = .ok design) :
    design.UniquePaths := by
  have well := well_formed_of_built built
  have labels := labels_of_mem_elements well
  have inRoot : ∀ root ∈ design.roots, ∀ outer ∈ root.preorder, outer.Labels :=
    fun root present outer inside => labels outer (mem_elements_of_root present inside)
  constructor
  case distinct =>
    apply @Element.paths_distinct_among _ Path.empty
    · exact fun root present => Element.paths_distinct (inRoot root present)
    · exact inRoot
    · exact path_of_root well
    · exact root_names_distinct well
  case root =>
    intro root present
    rw [path_of_root well root present]
    exact ⟨rfl, rfl⟩
  case inside =>
    intro element member child present
    have path := (labels element member).path child present
    obtain ⟨root, known, around⟩ := List.mem_flatMap.1 member
    have begins := Element.prefix_of_mem_preorder (inRoot root known) around
    rw [path_of_root well root known] at begins
    have nonempty : element.path.segments ≠ [] := by
      intro empty
      rw [empty] at begins
      exact absurd (List.prefix_nil.1 begins) nofun
    rw [path]
    exact ⟨rfl, Path.parent?_child nonempty _⟩
  case nested =>
    intro element member
    obtain ⟨root, known, around⟩ := List.mem_flatMap.1 member
    exact ⟨root, known, Element.exists_below_of_mem_preorder around⟩
  case depth =>
    intro root present levels element below
    rw [Element.depth_of_below (inRoot root present) below, path_of_root well root present,
      Nat.add_comm]
    rfl

theorem paths_of_sample_identify_elements :
    ∃ design, Design.ofDecls {} sampleDecls = .ok design ∧ design.UniquePaths ∧
      design.elements.map (·.path.text) =
        ["timer", "timer.control", "timer.control.mode", "timer.control.mode.once",
          "timer.control.mode.periodic", "timer.control.enable", "timer.control.enable.lane",
          "timer.reload", "timer.reload.reload", "bus", "bus.timer", "bus.timer.timer"] := by
  have texts : (Design.ofDecls {} sampleDecls).map (·.elements.map (·.path.text)) =
      .ok ["timer", "timer.control", "timer.control.mode", "timer.control.mode.once",
        "timer.control.mode.periodic", "timer.control.enable", "timer.control.enable.lane",
        "timer.reload", "timer.reload.reload", "bus", "bus.timer", "bus.timer.timer"] := by
    decide +kernel
  obtain ⟨design, built, same⟩ := exists_of_map_eq_ok texts
  exact ⟨design, built, paths_identify_elements built, same⟩

end Design

end AddressMap
