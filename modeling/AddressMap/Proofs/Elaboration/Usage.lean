import AddressMap.Proofs.Decl.Attrs
import AddressMap.Proofs.Elaboration.Revising

/-!
# What documentation and access leave alone

Paragraphs of description, restrictions of access and formats are handed down to headers and are
asked for nowhere else. From declarations that are stripped of them comes the design that is stripped
of them. So declarations that differ in nothing else make designs that differ in nothing else.
-/

namespace AddressMap

set_option autoImplicit false

theorem lookup_filter_key (keep : String → Bool) (key : String)
    (entries : List (String × String)) :
    (entries.filter fun entry => keep entry.1).lookup key =
      if keep key then entries.lookup key else none := by
  induction entries with
  | nil => simp
  | cons head rest ih =>
      by_cases same : key = head.1
      · subst same
        cases kept : keep head.1 with
        | true =>
            rw [List.filter_cons_of_pos (by simp [kept])]
            exact List.lookup_cons_self.trans List.lookup_cons_self.symm
        | false =>
            rw [List.filter_cons_of_neg (by simp [kept]), ih, kept]
            rfl
      · have unequal : (key == head.1) = false := beq_eq_false_iff_ne.2 same
        rw [List.lookup_cons, unequal]
        cases kept : keep head.1 with
        | true => rw [List.filter_cons_of_pos (by simp [kept]), List.lookup_cons, unequal, ih]
        | false => rw [List.filter_cons_of_neg (by simp [kept]), ih]

namespace AttrMap

def restrict (attrs : AttrMap) (keep : String → Bool) : AttrMap where
  entries := attrs.entries.filter fun entry => keep entry.1
  ascending := attrs.ascending.filter _

theorem get?_restrict (attrs : AttrMap) (keep : String → Bool) (key : String) :
    (attrs.restrict keep).get? key = if keep key then attrs.get? key else none :=
  lookup_filter_key keep key attrs.entries

end AttrMap

def isUsageKey (key : String) : Bool :=
  [Attribute.readOnly.key, Attribute.writeOnly.key, Attribute.format.key].contains key

theorem is_usage_key_key (attr : Attribute) : isUsageKey attr.key = attr.isUsage := by
  cases attr <;> decide

namespace Decl

mutual

/-- The declaration without descriptions, restrictions of access and formats, at any depth. -/
def stripped : Decl → Decl
  | ⟨kind, attrs, _, children⟩ =>
      ⟨kind, attrs.restrict fun key => !isUsageKey key, [], strippedAll children⟩

def strippedAll : List Decl → List Decl
  | [] => []
  | child :: rest => child.stripped :: strippedAll rest

end

theorem stripped_all_eq_map (decls : List Decl) : strippedAll decls = decls.map stripped := by
  induction decls with
  | nil => rfl
  | cons decl rest ih => rw [strippedAll, List.map_cons, ih]

theorem kind_stripped (decl : Decl) : decl.stripped.kind = decl.kind := by
  cases decl
  rfl

theorem attrs_stripped (decl : Decl) :
    decl.stripped.attrs = decl.attrs.restrict fun key => !isUsageKey key := by
  cases decl
  rfl

theorem description_stripped (decl : Decl) : decl.stripped.description = [] := by
  cases decl
  rfl

theorem children_stripped (decl : Decl) : decl.stripped.children = decl.children.map stripped := by
  cases decl
  exact stripped_all_eq_map _

theorem get?_stripped (decl : Decl) (attr : Attribute) :
    decl.stripped.get? attr = if attr.isUsage then none else decl.get? attr := by
  unfold Decl.get?
  rw [attrs_stripped, AttrMap.get?_restrict, is_usage_key_key]
  cases attr.isUsage <;> rfl

end Decl

def Header.stripped (header : Header) : Header :=
  { header with description := [], access := .readWrite, format := .bits }

theorem Site.header_stripped {site : Site} {name : String} {above : Context} {header : Header}
    (headed : site.header name above = .ok header) :
    Site.header ⟨site.decl.stripped, site.path⟩ name {} = .ok header.stripped := by
  obtain ⟨-, -, -, -, -, -, -, same, path, -, -⟩ := header_eq_ok.1 headed
  have unstated (attr : Attribute) (usage : attr.isUsage = true) :
      site.decl.stripped.get? attr = none := by
    rw [Decl.get?_stripped, usage]
    rfl
  apply header_eq_ok.2
  refine ⟨none, none, none, ?_, ?_, ?_, rfl, same, path, ?_, rfl⟩
  · rw [truth?_eq_ok, unstated .readOnly rfl]
    rfl
  · rw [truth?_eq_ok, unstated .writeOnly rfl]
    rfl
  · rw [format?_eq_ok, unstated .format rfl]
    rfl
  · exact (Decl.description_stripped site.decl).symm

namespace Revision

def stripping : Revision where
  decl := Decl.stripped
  context _ := {}
  header := Header.stripped
  kind := Decl.kind_stripped
  children := Decl.children_stripped
  get? old attr plain := by
    rw [Decl.get?_stripped, plain]
    rfl
  keys old entry member := by
    rw [Decl.attrs_stripped] at member
    exact ⟨entry, List.mem_of_mem_filter member, rfl⟩
  outermost := rfl
  name _ := rfl
  path _ := rfl
  handed _ := rfl
  headed _ _ _ _ headed := Site.header_stripped headed

end Revision

namespace Design

variable {defaults : MapDefaults} {decls others : List Decl} {first second : Design}

/-- The design without descriptions, restrictions of access and formats in any element. -/
def stripped (design : Design) : Design :=
  Revision.stripping.onDesign design

theorem stripped_of_built (built : Design.ofDecls defaults decls = .ok first) :
    Design.ofDecls defaults (decls.map Decl.stripped) = .ok first.stripped :=
  Revision.stripping.design_of_decls built

/-- Declarations that differ in their documentation, their restrictions of access and their formats
make designs that differ in nothing else. -/
theorem usage_moves_nothing (alike : decls.map Decl.stripped = others.map Decl.stripped)
    (built : Design.ofDecls defaults decls = .ok first)
    (builtOther : Design.ofDecls defaults others = .ok second) :
    first.stripped = second.stripped := by
  have strippedFirst := stripped_of_built built
  rw [alike] at strippedFirst
  exact Except.ok.inj (strippedFirst.symm.trans (stripped_of_built builtOther))

def plainDecls : List Decl :=
  [{ kind := .component
     attrs := .ofList [("name", "port"), ("width", "32")]
     children :=
      [{ kind := .register
         attrs := .ofList [("name", "data"), ("offset", "1")]
         children := [{ kind := .field, attrs := .ofList [("name", "byte"), ("size", "8")] }] }] },
    { kind := .memoryMap
      attrs := .ofList [("name", "bus")]
      children := [{ kind := .componentInstance, attrs := .ofList [("name", "port")] }] }]

def annotatedDecls : List Decl :=
  [{ kind := .component
     attrs := .ofList [("name", "port"), ("readOnly", "yes"), ("width", "32")]
     description := ["What comes in."]
     children :=
      [{ kind := .register
         attrs := .ofList [("name", "data"), ("offset", "1"), ("writeOnly", "no")]
         children :=
          [{ kind := .field
             attrs := .ofList [("name", "byte"), ("size", "8"), ("format", "unsigned")]
             description := ["The last byte."] }] }] },
    { kind := .memoryMap
      attrs := .ofList [("name", "bus")]
      children :=
       [{ kind := .componentInstance
          attrs := .ofList [("name", "port"), ("format", "signed")] }] }]

theorem annotations_move_no_port :
    ∃ first second, Design.ofDecls {} plainDecls = .ok first ∧
      Design.ofDecls {} annotatedDecls = .ok second ∧ first.stripped = second.stripped := by
  obtain ⟨first, built⟩ :=
    @exists_eq_ok_of_is_ok _ _ (Design.ofDecls {} plainDecls) (by decide +kernel)
  obtain ⟨second, builtOther⟩ :=
    @exists_eq_ok_of_is_ok _ _ (Design.ofDecls {} annotatedDecls) (by decide +kernel)
  have alike : plainDecls.map Decl.stripped = annotatedDecls.map Decl.stripped := by
    simp only [plainDecls, annotatedDecls, List.map_cons, List.map_nil, Decl.stripped,
      Decl.strippedAll, List.cons.injEq, Decl.mk.injEq, true_and, and_true]
    decide +kernel
  exact ⟨first, second, built, builtOther, usage_moves_nothing alike built builtOther⟩

end Design

end AddressMap
