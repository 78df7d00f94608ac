import FilterQuery.Proofs.Definitions
import FilterQuery.Query.Compile
import Mathlib.Tactic.Common

set_option autoImplicit false

/-! # What a compilation can write

`Clause.Compiled` says once which clauses a condition can be compiled to: every path starts at the
alias of its scope and goes over names of the catalog, every numeral is the text of a number, and
every other name is a name of the catalog with a number behind it. `Condition.compiled_of_compile`
proves it of every condition, so what holds of all compiled clauses is shown by induction on that
predicate, without a look at the compiler. -/

namespace FilterQuery

@[simp] theorem orFail_eq_ok {α : Type} {e : CompileError} {o : Option α} {a : α} :
    orFail e o = .ok a ↔ o = some a := by
  cases o with
  | none => simp [orFail, refuse]
  | some b => simp [orFail]

@[simp] theorem orRefuse_eq_ok {ε δ α : Type} {f : ε → δ} {x : Except ε α} {a : α} :
    orRefuse f x = .ok a ↔ x = .ok a := by
  cases x with
  | error e => simp [orRefuse, refuse]
  | ok b => simp [orRefuse]

theorem exists_of_mem_mapM {ε α β : Type} {f : α → Except ε β} {as : List α} {bs : List β}
    (h : as.mapM f = .ok bs) : ∀ b ∈ bs, ∃ a ∈ as, f a = .ok b := by
  induction as generalizing bs with
  | nil =>
    cases h
    simp
  | cons a as ih =>
    rw [List.mapM_cons] at h
    obtain ⟨b, hb, h⟩ := bind_eq_ok_iff.1 h
    obtain ⟨bs', hbs, h⟩ := bind_eq_ok_iff.1 h
    cases h
    intro x hx
    rcases List.mem_cons.1 hx with rfl | hx
    · exact ⟨a, List.mem_cons_self, hb⟩
    · obtain ⟨a', ha', hfa'⟩ := ih hbs x hx
      exact ⟨a', List.mem_cons_of_mem _ ha', hfa'⟩

/-! ## Names of a catalog -/

namespace Catalog

/-- The names of the entity types and of their attributes, the identifiers among them. -/
def names (c : Catalog) : List String :=
  c.types.flatMap fun t => t.name :: t.id :: t.attributes.map Attribute.name

variable {c : Catalog} {type name : String} {a : Attribute}

theorem mem_names_of_mem_attributes (h : a ∈ c.attributes type) :
    a.name ∈ c.names ∧ type ∈ c.names := by
  obtain ⟨t, ht, rfl, hattributes⟩ := exists_type_of_mem_attributes h
  rw [← hattributes] at h
  constructor
  · exact List.mem_flatMap.2 ⟨t, ht, by simpa using .inr (.inr ⟨a, h, rfl⟩)⟩
  · exact List.mem_flatMap.2 ⟨t, ht, List.mem_cons_self⟩

theorem mem_names_of_attribute? (h : c.attribute? type name = some a) :
    name ∈ c.names ∧ a.name ∈ c.names := by
  have hname : a.name = name := by simpa using List.find?_some h
  have hmem := (mem_names_of_mem_attributes (List.mem_of_find?_eq_some h)).1
  exact ⟨hname ▸ hmem, hmem⟩

theorem mem_names_of_identifier? (h : c.identifier? type = some name) : name ∈ c.names := by
  obtain ⟨t, ht, rfl⟩ := Option.map_eq_some_iff.1 h
  exact List.mem_flatMap.2 ⟨t, (mem_of_type? ht).1, by simp⟩

theorem mem_names_of_hasType (h : c.hasType type = true) : type ∈ c.names := by
  obtain ⟨t, ht⟩ := Option.isSome_iff_exists.1 h
  obtain ⟨hmem, rfl⟩ := mem_of_type? ht
  exact List.mem_flatMap.2 ⟨t, hmem, List.mem_cons_self⟩

/-- Every segment of a path that leads somewhere is a name. -/
theorem mem_names_of_resolveSegments {path : List String}
    (h : c.resolveSegments type path = .ok a) : (∀ n ∈ path, n ∈ c.names) ∧ a.name ∈ c.names := by
  induction path generalizing type with
  | nil => cases h
  | cons segment rest ih =>
    rw [resolveSegments] at h
    split at h
    · cases h
    · next attr hattr =>
      obtain ⟨hsegment, hname⟩ := mem_names_of_attribute? hattr
      split at h
      · next hrest =>
        cases h
        simpa [List.isEmpty_iff.1 hrest] using ⟨hsegment, hname⟩
      · split at h
        · cases h
        · obtain ⟨hpath, ha⟩ := ih h
          exact ⟨List.forall_mem_cons.2 ⟨hsegment, hpath⟩, ha⟩

theorem mem_names_of_resolve {path : String} (h : c.resolve type path = .ok a) :
    (∀ n ∈ segments path, n ∈ c.names) ∧ a.name ∈ c.names := by
  unfold resolve at h
  split at h
  · cases h
  · split at h
    · cases h
    · exact mem_names_of_resolveSegments h

theorem mem_names_of_inverse? {source : String} {attr : Attribute}
    (h : c.inverse? source attr type = some a) : a.name ∈ c.names ∧ type ∈ c.names := by
  unfold inverse? at h
  split at h
  · exact mem_names_of_mem_attributes (List.mem_of_find?_eq_some h)
  · exact mem_names_of_mem_attributes (List.mem_of_find?_eq_some h)

/-! ### Catalogs from definitions

The identifier of an entity type is one of its attributes, so the names of a catalog are those that
its definitions give to entities and attributes. -/

/-- What holds of all names in the definitions holds of all names of the catalog. -/
theorem forall_names_of_build {defs : List EntityDef} {P : String → Prop}
    (h : build defs = .ok c) (hP : ∀ d ∈ defs, P d.name ∧ ∀ a ∈ d.attributes, P a.name) :
    ∀ n ∈ c.names, P n := by
  obtain ⟨-, hvalid, hall⟩ := build_eq_ok_iff.1 h
  intro n hn
  obtain ⟨t, ht, hn⟩ := List.mem_flatMap.1 hn
  obtain ⟨d, hd, hdescribes⟩ := exists_of_mem_of_forall₂ hall ht
  obtain ⟨hname, hattributes⟩ := hP d hd
  have hdefs : ∀ n ∈ d.attributes.map AttributeDef.name, P n := by simpa using hattributes
  rcases List.mem_cons.1 hn with rfl | hn
  · exact hdescribes.name_eq ▸ hname
  rcases List.mem_cons.1 hn with rfl | hn
  · exact hdefs _ (hdescribes.id_eq ▸ (hvalid d hd).id_mem)
  · exact hdefs n (hdescribes.map_name_attributes ▸ hn)

end Catalog

/-! ## Clauses of a compilation -/

/-- The text of a value that is a text. -/
def Value.string? : Value → Option String
  | .string text => some text
  | _ => none

/-- An alias that is generated for members of the given type. -/
def Names.IsAliasOf (type name : String) : Prop := ∃ n, name = numbered (aliasStem type) n

theorem Names.isAliasOf_nextAlias (names : Names) (type : String) :
    IsAliasOf type (names.nextAlias type).1 := ⟨freshIndex names.aliases (aliasStem type), rfl⟩

/-- A path from an alias over names of the catalog. -/
structure Catalog.IsPath (c : Catalog) (aliasName : String) (ref : Ref) : Prop where
  alias_eq : ref.aliasName = aliasName
  mem_names : ∀ n ∈ ref.path, n ∈ c.names

theorem Catalog.IsPath.member {c : Catalog} {aliasName name : String} {ref : Ref}
    (h : c.IsPath aliasName ref) (hname : name ∈ c.names) : c.IsPath aliasName (ref.member name) :=
  ⟨h.alias_eq, by simpa [Ref.member, or_imp, forall_and, hname] using h.mem_names⟩

/-- What stands behind a symbol or in a list. -/
inductive Operand.Compiled (c : Catalog) : Operand → Prop
  | quoted (cs : List Char) : Compiled c (.quoted cs)
  | numeral {value : Value} (h : value.isNumeric = true) : Compiled c (.numeral value.text)
  | parameter {attr : String} (h : attr ∈ c.names) (n : Nat) :
    Compiled c (.parameter (Names.numbered attr n))
  | date (d : Date) : Compiled c (.date d)
  | timestamp (dt : LocalDateTime) : Compiled c (.timestamp dt)

/-- A clause that a condition can be compiled to in a scope with the given alias. -/
inductive Clause.Compiled (c : Catalog) : String → Clause → Prop
  | null {a : String} {ref : Ref} (h : c.IsPath a ref) : Compiled c a (.null ref)
  | notNull {a : String} {ref : Ref} (h : c.IsPath a ref) : Compiled c a (.notNull ref)
  | compareText {a : String} {ref : Ref} (h : c.IsPath a ref) (symbol : TextSymbol)
    (literal : List Char) : Compiled c a (.compareText ref symbol literal)
  | compare {a : String} {ref : Ref} {operand : Operand} (h : c.IsPath a ref) (symbol : Symbol)
    (ho : operand.Compiled c) : Compiled c a (.compare ref symbol operand)
  | compareComponent {a : String} {ref : Ref} (component : Component) (h : c.IsPath a ref)
    (symbol : Symbol) (n : Int) : Compiled c a (.compareComponent component ref symbol n)
  | oneOf {a : String} {ref : Ref} {items : List Operand} (h : c.IsPath a ref)
    (hitems : ∀ item ∈ items, item.Compiled c) : Compiled c a (.oneOf ref items)
  | noneOf {a : String} {ref : Ref} {items : List Operand} (h : c.IsPath a ref)
    (hitems : ∀ item ∈ items, item.Compiled c) : Compiled c a (.noneOf ref items)
  | not {a : String} {clause : Clause} (h : Compiled c a clause) : Compiled c a (.not clause)
  | group {a : String} {clauses : List Clause} (connective : Connective)
    (h : ∀ clause ∈ clauses, Compiled c a clause) : Compiled c a (.group connective clauses)
  /-- The members of a collection get an alias of their own. -/
  | members {a b target : String} {owner back : Ref} {restriction : Clause}
    (howner : c.IsPath a owner) (htarget : target ∈ c.names) (halias : Names.IsAliasOf target b)
    (hback : c.IsPath b back) (h : Compiled c b restriction) :
    Compiled c a (.members owner back target restriction)
  | totals {a b target : String} {owner back aggregated : Ref} {bound : Value}
    (howner : c.IsPath a owner) (htarget : target ∈ c.names) (halias : Names.IsAliasOf target b)
    (hback : c.IsPath b back) (haggregated : c.IsPath b aggregated) (function : Aggregate)
    (symbol : Symbol) (hbound : bound.isNumeric = true) :
    Compiled c a (.totals owner back target function aggregated symbol bound.text)

/-! ### Rows of components

A row is compared by groups of comparisons of its components, so what holds of those and is kept by
groups holds of the comparison of the row. -/

namespace Clause

variable {P : Clause → Prop} {ref : Ref} {op : Operator} {clause : Clause}
  {row : List (Component × Nat)}

theorem ordered_induction
    (hleaf : ∀ component symbol n, P (.compareComponent component ref symbol n))
    (hgroup : ∀ connective clauses, (∀ clause ∈ clauses, P clause) → P (.group connective clauses))
    (strict last : Symbol) (row : List (Component × Nat)) : P (ordered ref strict last row) := by
  fun_induction ordered ref strict last row with
  | case1 => exact hgroup _ _ (by simp)
  | case2 component n => exact hleaf component last n
  | case3 component n rest hrest ih =>
    have hrow : P (.group .and [.compareComponent component ref .eq n,
        ordered ref strict last rest]) := hgroup _ _ (by simpa using ⟨hleaf component .eq n, ih⟩)
    exact hgroup _ _ (by simpa using ⟨hleaf component strict n, hrow⟩)

theorem compareRow?_induction
    (hleaf : ∀ component symbol n, P (.compareComponent component ref symbol n))
    (hgroup : ∀ connective clauses, (∀ clause ∈ clauses, P clause) → P (.group connective clauses))
    (h : compareRow? ref op row = some clause) : P clause := by
  have hall : ∀ symbol, ∀ clause ∈ row.map fun entry =>
      Clause.compareComponent entry.1 ref symbol entry.2, P clause := by
    intro symbol clause hclause
    obtain ⟨⟨component, n⟩, -, rfl⟩ := List.mem_map.1 hclause
    exact hleaf component symbol n
  unfold compareRow? at h
  split at h
  · cases h
    exact hgroup _ _ (hall .eq)
  · cases h
    exact hgroup _ _ (hall .ne)
  · obtain ⟨⟨strict, last⟩, -, rfl⟩ := Option.map_eq_some_iff.1 h
    exact ordered_induction hleaf hgroup strict last row

end Clause

namespace Scope

open Clause

variable {s : Scope} {field : String} {ref : Ref} {attr : Attribute} {op : Operator}
  {names names' : Names} {clause : Clause}

theorem isPath_of_resolve (h : s.resolve field = .ok (ref, attr)) :
    s.catalog.IsPath s.aliasName ref ∧ attr.name ∈ s.catalog.names := by
  obtain ⟨found, hfound, heq⟩ := bind_eq_ok_iff.1 h
  cases heq
  obtain ⟨hpath, hname⟩ := Catalog.mem_names_of_resolve (orRefuse_eq_ok.1 hfound)
  exact ⟨⟨rfl, hpath⟩, hname⟩

theorem compiled_compareRow? {a : String} {c : Catalog} (h : c.IsPath a ref)
    {row : List (Component × Nat)} (hrow : compareRow? ref op row = some clause) :
    Compiled c a clause :=
  compareRow?_induction (fun component symbol n => .compareComponent component h symbol n)
    (fun connective _ hclauses => .group connective hclauses) hrow

/-- What the comparison of a path with a value is written as. Only a text ends up in a clause that
compares texts. -/
inductive Compares (c : Catalog) (ref : Ref) : Operator → Value → Clause → Prop
  | pattern (text : String) :
    Compares c ref .like (.string text) (.compareText ref .like (likePattern text.toList))
  | text {op : Operator} (hop : op ≠ .like) (symbol : Symbol) (text : String) :
    Compares c ref op (.string text) (.compareText ref (.symbol symbol) text.toList)
  | operand {op : Operator} {value : Value} {operand : Operand} (hvalue : value.string? = none)
    (symbol : Symbol) (ho : operand.Compiled c) :
    Compares c ref op value (.compare ref symbol operand)
  | component {op : Operator} {value : Value} (hvalue : value.string? = none)
    (component : Component) (symbol : Symbol) (n : Int) :
    Compares c ref op value (.compareComponent component ref symbol n)
  | row {op : Operator} {value : Value} {clause : Clause} (hvalue : value.string? = none)
    (row : List (Component × Nat)) (h : compareRow? ref op row = some clause) :
    Compares c ref op value clause

theorem compares_of_comparison {value : Value} (hattr : attr.name ∈ s.catalog.names)
    (h : s.comparison field ref attr op value names = .ok (clause, names')) :
    Compares s.catalog ref op value clause := by
  cases value with
  | string text =>
    simp only [comparison] at h
    split at h
    · next hop =>
      cases h
      subst hop
      exact .pattern text
    · next hop =>
      obtain ⟨symbol, -, h⟩ := bind_eq_ok_iff.1 h
      cases h
      exact .text hop symbol text
  | long n =>
    obtain ⟨symbol, -, h⟩ := bind_eq_ok_iff.1 h
    cases h
    refine .operand rfl symbol ?_
    split
    · exact .numeral rfl
    · exact .quoted _
  | double x =>
    obtain ⟨symbol, -, h⟩ := bind_eq_ok_iff.1 h
    cases h
    refine .operand rfl symbol ?_
    split
    · exact .numeral rfl
    · exact .quoted _
  | boolean b =>
    simp only [comparison] at h
    split at h
    all_goals
      obtain ⟨symbol, -, h⟩ := bind_eq_ok_iff.1 h
      split at h
      · cases h
        exact .operand rfl symbol (.parameter hattr _)
      · cases h
        exact .operand rfl symbol (.quoted _)
  | date d =>
    obtain ⟨symbol, -, h⟩ := bind_eq_ok_iff.1 h
    cases h
    exact .operand rfl symbol (.date d)
  | dateTime dt =>
    obtain ⟨symbol, -, h⟩ := bind_eq_ok_iff.1 h
    cases h
    exact .operand rfl symbol (.timestamp dt)
  | monthDay md =>
    obtain ⟨row, hrow, h⟩ := bind_eq_ok_iff.1 h
    cases h
    exact .row rfl _ (orFail_eq_ok.1 hrow)
  | time t =>
    obtain ⟨row, hrow, h⟩ := bind_eq_ok_iff.1 h
    cases h
    exact .row rfl _ (orFail_eq_ok.1 hrow)
  | year y =>
    obtain ⟨symbol, -, h⟩ := bind_eq_ok_iff.1 h
    cases h
    exact .component rfl .year symbol y
  | instant i =>
    obtain ⟨symbol, -, h⟩ := bind_eq_ok_iff.1 h
    obtain ⟨bound, -, h⟩ := bind_eq_ok_iff.1 h
    cases h
    exact .operand rfl symbol (.parameter hattr _)

theorem Compares.compiled {c : Catalog} {a : String} {value : Value} (href : c.IsPath a ref)
    (h : Compares c ref op value clause) : Compiled c a clause := by
  cases h with
  | pattern text => exact .compareText href _ _
  | text hop symbol text => exact .compareText href _ _
  | operand hvalue symbol ho => exact .compare href symbol ho
  | component hvalue component symbol n => exact .compareComponent component href symbol n
  | row hvalue row hrow => exact compiled_compareRow? href hrow

/-- The three ways to write a field under an operator. -/
theorem simple_cases {value : Option Value}
    (h : s.simple field op value names = .ok (clause, names')) :
    ∃ ref, s.catalog.IsPath s.aliasName ref ∧ ((op = .null ∧ clause = .null ref) ∨
      (op = .notNull ∧ clause = .notNull ref) ∨
      (op ≠ .null ∧ op ≠ .notNull ∧ ∃ v, value = some v ∧ Compares s.catalog ref op v clause)) := by
  obtain ⟨⟨ref, attr⟩, hresolve, h⟩ := bind_eq_ok_iff.1 h
  obtain ⟨href, hattr⟩ := isPath_of_resolve hresolve
  refine ⟨ref, href, ?_⟩
  simp only at h
  split at h
  · cases h
    exact .inl ⟨rfl, rfl⟩
  · cases h
    exact .inr (.inl ⟨rfl, rfl⟩)
  · next hnull hnotNull =>
    obtain ⟨v, hv, h⟩ := bind_eq_ok_iff.1 h
    exact .inr (.inr ⟨hnull, hnotNull, v, orFail_eq_ok.1 hv, compares_of_comparison hattr h⟩)

/-- A comparison takes names for parameters, and no others. -/
theorem names_of_comparison {value : Value}
    (h : s.comparison field ref attr op value names = .ok (clause, names')) :
    ∃ parameters, names' = { names with parameters := parameters } := by
  cases value with
  | string text =>
    simp only [comparison] at h
    split at h
    · cases h
      exact ⟨_, rfl⟩
    · obtain ⟨symbol, -, h⟩ := bind_eq_ok_iff.1 h
      cases h
      exact ⟨_, rfl⟩
  | boolean b =>
    simp only [comparison] at h
    split at h
    all_goals
      obtain ⟨symbol, -, h⟩ := bind_eq_ok_iff.1 h
      split at h <;> cases h <;> exact ⟨_, rfl⟩
  | instant i =>
    obtain ⟨symbol, -, h⟩ := bind_eq_ok_iff.1 h
    obtain ⟨bound, -, h⟩ := bind_eq_ok_iff.1 h
    cases h
    exact ⟨_, rfl⟩
  | _ =>
    obtain ⟨written, -, h⟩ := bind_eq_ok_iff.1 h
    cases h
    exact ⟨_, rfl⟩

theorem names_of_simple {value : Option Value}
    (h : s.simple field op value names = .ok (clause, names')) :
    ∃ parameters, names' = { names with parameters := parameters } := by
  obtain ⟨⟨ref, attr⟩, -, h⟩ := bind_eq_ok_iff.1 h
  simp only at h
  split at h
  · cases h
    exact ⟨_, rfl⟩
  · cases h
    exact ⟨_, rfl⟩
  · obtain ⟨v, -, h⟩ := bind_eq_ok_iff.1 h
    exact names_of_comparison h

theorem compiled_of_simple {value : Option Value}
    (h : s.simple field op value names = .ok (clause, names')) :
    Compiled s.catalog s.aliasName clause := by
  obtain ⟨ref, href, ⟨-, rfl⟩ | ⟨-, rfl⟩ | ⟨-, -, v, -, hv⟩⟩ := simple_cases h
  · exact .null href
  · exact .notNull href
  · exact hv.compiled href

theorem compiled_of_listItem {value : Value} {operand : Operand}
    (h : listItem value = .ok operand) : operand.Compiled s.catalog := by
  unfold listItem at h
  split at h
  · cases h
    exact .quoted _
  · cases h
    exact .numeral rfl
  · cases h
    exact .numeral rfl
  · cases h

theorem compiled_of_list {values : List Value} {items : List Operand}
    (h : s.list field values = .ok (ref, items)) :
    s.catalog.IsPath s.aliasName ref ∧ ∀ item ∈ items, item.Compiled s.catalog := by
  obtain ⟨⟨found, attr⟩, hresolve, h⟩ := bind_eq_ok_iff.1 h
  obtain ⟨written, hitems, h⟩ := bind_eq_ok_iff.1 h
  cases h
  refine ⟨(isPath_of_resolve hresolve).1, fun item hitem => ?_⟩
  obtain ⟨value, -, hvalue⟩ := exists_of_mem_mapM hitems item hitem
  exact compiled_of_listItem hvalue

/-! ### Collections -/

/-- What is in front of the first collection and behind it stood on the path. -/
theorem mem_of_firstCollection {segments before before' rest : List String} {collection : Attribute}
    (h : s.firstCollection field before segments = .ok (before', collection, rest)) :
    ∀ n ∈ before' ++ rest, n ∈ before ++ segments := by
  induction segments generalizing before with
  | nil => cases h
  | cons segment segments ih =>
    obtain ⟨attr, -, h⟩ := bind_eq_ok_iff.1 h
    split at h
    · cases h
      intro n hn
      rcases List.mem_append.1 hn with hbefore | hrest
      · exact List.mem_append_left _ hbefore
      · exact List.mem_append_right _ (List.mem_cons_of_mem _ hrest)
    · intro n hn
      simpa using ih h n hn

/-- Everything that a step to a collection names is a name of the catalog. -/
structure Hop.Compiled (s : Scope) (hop : Hop) : Prop where
  owner : s.catalog.IsPath s.aliasName hop.owner
  target : hop.target ∈ s.catalog.names
  inverse : hop.inverse.name ∈ s.catalog.names
  rest : ∀ n ∈ hop.rest, n ∈ s.catalog.names

theorem compiled_of_hop {hop : Hop} (h : s.hop field = .ok hop) : hop.Compiled s := by
  obtain ⟨attr, hattr, h⟩ := bind_eq_ok_iff.1 h
  have hsegments := (Catalog.mem_names_of_resolve (orRefuse_eq_ok.1 hattr)).1
  obtain ⟨⟨before, collection, rest⟩, hfirst, h⟩ := bind_eq_ok_iff.1 h
  obtain ⟨target, -, h⟩ := bind_eq_ok_iff.1 h
  obtain ⟨inverse, hinverse, h⟩ := bind_eq_ok_iff.1 h
  obtain ⟨-, -, h⟩ := bind_eq_ok_iff.1 h
  cases h
  have hmem : ∀ n ∈ before ++ rest, n ∈ s.catalog.names := fun n hn =>
    hsegments n (mem_of_firstCollection hfirst n hn)
  obtain ⟨hinverse, htarget⟩ := Catalog.mem_names_of_inverse? (orFail_eq_ok.1 hinverse)
  exact {
    owner := ⟨rfl, fun n hn => hmem n (List.mem_append_left _ hn)⟩
    target := htarget
    inverse := hinverse
    rest := fun n hn => hmem n (List.mem_append_right _ hn) }

theorem havingHop_eq_ok {hop : Hop} (h : s.havingHop field names = .ok hop) :
    s.hop field = .ok hop ∧ hop.rest = [] := by
  obtain ⟨-, -, h⟩ := bind_eq_ok_iff.1 h
  obtain ⟨found, hhop, h⟩ := bind_eq_ok_iff.1 h
  split at h
  · next hrest =>
    cases h
    exact ⟨hhop, List.isEmpty_iff.1 hrest⟩
  · cases h

theorem mem_names_of_aggregatedName {hop : Hop} {function : Aggregate} {name : String}
    (hhop : hop.Compiled s) (h : s.aggregatedName hop field function = .ok name) :
    name ∈ s.catalog.names := by
  unfold aggregatedName at h
  split at h
  · next first more hrest =>
    cases h
    exact hhop.rest _ (by simp [hrest])
  · split at h
    · exact Catalog.mem_names_of_identifier? (orFail_eq_ok.1 h)
    · cases h

/-- What a function over the members of a collection goes over, and what it is written as. -/
theorem aggregate_eq_ok {function : Aggregate} {bound : Value}
    (h : s.aggregate field function op bound names = .ok (clause, names')) :
    ∃ hop ownerId aggregated symbol, s.hop field = .ok hop ∧ hop.rest.length ≤ 1 ∧
      s.catalog.identifier? hop.ownerType = some ownerId ∧
      s.aggregatedName hop field function = .ok aggregated ∧ bound.isNumeric = true ∧
      clause = .totals (hop.owner.member ownerId)
        ⟨(names.nextAlias hop.target).1, [hop.inverse.name, ownerId]⟩ hop.target function
        ⟨(names.nextAlias hop.target).1, [aggregated]⟩ symbol bound.text ∧
      names' = (names.nextAlias hop.target).2 := by
  obtain ⟨-, -, h⟩ := bind_eq_ok_iff.1 h
  obtain ⟨hop, hhop, h⟩ := bind_eq_ok_iff.1 h
  simp only at h
  split at h
  · cases h
  next hlength =>
  obtain ⟨-, -, h⟩ := bind_eq_ok_iff.1 h
  obtain ⟨ownerId, hownerId, h⟩ := bind_eq_ok_iff.1 h
  obtain ⟨aggregated, haggregated, h⟩ := bind_eq_ok_iff.1 h
  obtain ⟨symbol, -, h⟩ := bind_eq_ok_iff.1 h
  split at h
  · cases h
  next hnumeric =>
  cases h
  exact ⟨hop, ownerId, aggregated, symbol, hhop, Nat.le_of_not_lt hlength, orFail_eq_ok.1 hownerId,
    haggregated, by simpa using hnumeric, rfl, rfl⟩

theorem compiled_of_aggregate {function : Aggregate} {bound : Value}
    (h : s.aggregate field function op bound names = .ok (clause, names')) :
    (∃ owner back target aggregated symbol,
      clause = .totals owner back target function aggregated symbol bound.text) ∧
    Clause.Compiled s.catalog s.aliasName clause := by
  obtain ⟨hop, ownerId, aggregated, symbol, hhop, -, hownerId, haggregated, hnumeric, rfl, -⟩ :=
    aggregate_eq_ok h
  have hcompiled := compiled_of_hop hhop
  have hid := Catalog.mem_names_of_identifier? hownerId
  have hmember := mem_names_of_aggregatedName hcompiled haggregated
  refine ⟨⟨_, _, _, _, _, rfl⟩, ?_⟩
  have halias := names.isAliasOf_nextAlias hop.target
  generalize (names.nextAlias hop.target).1 = inner at halias ⊢
  exact .totals (hcompiled.owner.member hid) hcompiled.target halias
    ⟨rfl, by simp [hcompiled.inverse, hid]⟩ ⟨rfl, by simp [hmember]⟩ function symbol hnumeric

end Scope

/-! ### Conditions -/

namespace Condition

section

variable {s : Scope} {names names' : Names} {clause : Clause} {field : String}

theorem compile_oneOf_eq_ok {values : List Value}
    (h : (Condition.oneOf field values).compile s names = .ok (clause, names')) :
    ∃ ref items, s.list field values = .ok (ref, items) ∧ clause = .oneOf ref items ∧
      names' = names := by
  rw [compile_oneOf] at h
  obtain ⟨⟨ref, items⟩, hlist, h⟩ := bind_eq_ok_iff.1 h
  cases h
  exact ⟨ref, items, hlist, rfl, rfl⟩

theorem compile_noneOf_eq_ok {values : List Value}
    (h : (Condition.noneOf field values).compile s names = .ok (clause, names')) :
    ∃ ref items, s.list field values = .ok (ref, items) ∧ clause = .noneOf ref items ∧
      names' = names := by
  rw [compile_noneOf] at h
  obtain ⟨⟨ref, items⟩, hlist, h⟩ := bind_eq_ok_iff.1 h
  cases h
  exact ⟨ref, items, hlist, rfl, rfl⟩

theorem compile_not_eq_ok {c : Condition}
    (h : (Condition.not c).compile s names = .ok (clause, names')) :
    ∃ inner, c.compile s names = .ok (inner, names') ∧ clause = .not inner := by
  rw [compile_not] at h
  obtain ⟨⟨inner, names₁⟩, hinner, h⟩ := bind_eq_ok_iff.1 h
  cases h
  exact ⟨inner, hinner, rfl⟩

theorem compile_group_eq_ok {join : Connective} {first second : Condition} {more : List Condition}
    (h : (Condition.group join first second more).compile s names = .ok (clause, names')) :
    ∃ a b rest names₁ names₂, first.compile s names = .ok (a, names₁) ∧
      second.compile s names₁ = .ok (b, names₂) ∧ compileAll s more names₂ = .ok (rest, names') ∧
      clause = .group join (a :: b :: rest) := by
  rw [compile_group] at h
  obtain ⟨⟨a, names₁⟩, ha, h⟩ := bind_eq_ok_iff.1 h
  obtain ⟨⟨b, names₂⟩, hb, h⟩ := bind_eq_ok_iff.1 h
  obtain ⟨⟨rest, names₃⟩, hrest, h⟩ := bind_eq_ok_iff.1 h
  cases h
  exact ⟨a, b, rest, names₁, names₂, ha, hb, hrest, rfl⟩

/-- What a condition on the members of a collection goes over, and what it is written as. -/
theorem compile_having_eq_ok {sub : Condition}
    (h : (Condition.having field sub).compile s names = .ok (clause, names')) :
    ∃ hop restriction names₁, s.hop field = .ok hop ∧ hop.rest = [] ∧
      sub.compile (s.inner hop.target (names.nextAlias hop.target).1)
        (names.nextAlias hop.target).2.enter = .ok (restriction, names₁) ∧
      clause = .members hop.owner ⟨(names.nextAlias hop.target).1, [hop.inverse.name]⟩ hop.target
        restriction ∧
      names' = names₁.leave := by
  rw [compile_having] at h
  obtain ⟨hop, hhop, h⟩ := bind_eq_ok_iff.1 h
  obtain ⟨⟨restriction, names₁⟩, hsub, h⟩ := bind_eq_ok_iff.1 h
  cases h
  obtain ⟨hhop, hrest⟩ := Scope.havingHop_eq_ok hhop
  exact ⟨hop, restriction, names₁, hhop, hrest, hsub, rfl, rfl⟩

theorem compileAll_cons_eq_ok {c : Condition} {cs : List Condition} {clauses : List Clause}
    (h : compileAll s (c :: cs) names = .ok (clauses, names')) :
    ∃ a rest names₁, c.compile s names = .ok (a, names₁) ∧
      compileAll s cs names₁ = .ok (rest, names') ∧ clauses = a :: rest := by
  rw [compileAll_cons] at h
  obtain ⟨⟨a, names₁⟩, ha, h⟩ := bind_eq_ok_iff.1 h
  obtain ⟨⟨rest, names₂⟩, hrest, h⟩ := bind_eq_ok_iff.1 h
  cases h
  exact ⟨a, rest, names₁, ha, hrest, rfl⟩

end

mutual

/-- What a condition is compiled to. -/
theorem compiled_of_compile {s : Scope} {names names' : Names} {clause : Clause} :
    ∀ {c : Condition}, c.compile s names = .ok (clause, names') →
      Clause.Compiled s.catalog s.aliasName clause
  | .simple field op value, h => Scope.compiled_of_simple (compile_simple.symm.trans h)
  | .oneOf field values, h => by
    obtain ⟨ref, items, hlist, rfl, rfl⟩ := compile_oneOf_eq_ok h
    obtain ⟨href, hitems⟩ := Scope.compiled_of_list hlist
    exact .oneOf href hitems
  | .noneOf field values, h => by
    obtain ⟨ref, items, hlist, rfl, rfl⟩ := compile_noneOf_eq_ok h
    obtain ⟨href, hitems⟩ := Scope.compiled_of_list hlist
    exact .noneOf href hitems
  | .not c, h => by
    obtain ⟨inner, hinner, rfl⟩ := compile_not_eq_ok h
    exact .not (compiled_of_compile hinner)
  | .group connective first second more, h => by
    obtain ⟨a, b, rest, names₁, names₂, ha, hb, hrest, rfl⟩ := compile_group_eq_ok h
    refine .group connective (List.forall_mem_cons.2 ⟨compiled_of_compile ha, ?_⟩)
    exact List.forall_mem_cons.2 ⟨compiled_of_compile hb, compiled_of_compileAll hrest⟩
  | .having field sub, h => by
    obtain ⟨hop, restriction, names₁, hhop, -, hsub, rfl, -⟩ := compile_having_eq_ok h
    have hcompiled := Scope.compiled_of_hop hhop
    have halias := names.isAliasOf_nextAlias hop.target
    generalize (names.nextAlias hop.target).1 = inner at halias hsub ⊢
    exact .members hcompiled.owner hcompiled.target halias ⟨rfl, by simp [hcompiled.inverse]⟩
      (compiled_of_compile hsub)
  | .aggregate field function op bound, h =>
    (Scope.compiled_of_aggregate (compile_aggregate.symm.trans h)).2

theorem compiled_of_compileAll {s : Scope} {names names' : Names} {clauses : List Clause} :
    ∀ {cs : List Condition}, compileAll s cs names = .ok (clauses, names') →
      ∀ clause ∈ clauses, Clause.Compiled s.catalog s.aliasName clause
  | [], h => by
    cases compileAll_nil.symm.trans h
    simp
  | c :: cs, h => by
    obtain ⟨a, rest, names₁, ha, hrest, rfl⟩ := compileAll_cons_eq_ok h
    exact List.forall_mem_cons.2 ⟨compiled_of_compile ha, compiled_of_compileAll hrest⟩

end

end Condition

end FilterQuery
