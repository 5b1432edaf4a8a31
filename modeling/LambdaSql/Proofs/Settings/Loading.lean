import LambdaSql.Proofs.Settings.Documents
import LambdaSql.Settings.Load
import Mathlib.Data.List.Induction

/-!
# Loading settings over the defaults

When a document is laid over another one, a path through the members of objects leads to what the upper document has
there, and where the upper document ends early, to what the lower one has. Laying the same document over the result again
changes nothing, as all of it is there already.

The document of a text is laid over that of the default settings, and the settings are read from the outcome. A setting
that the text leaves out has its default then, and one that it holds is read as it stands there.

## Main definitions

* `Document.at?` - what a path of names leads to.
* `Document.Lacks` - a path ends early, at an object that has no such member.
* `Document.overlay` - a document over one that may be there.
* `Settings.Entry` - a setting, with its form in documents.
* `Settings.entries` - all settings.

## Main results

* `Document.find?_mergeMembers` - a member of merged objects.
* `Document.at?_overlay_of_not_object` - what the upper document has at a path, the merged one has there.
* `Document.at?_overlay_of_lacks` - at a path that the upper document lacks, the lower one shows.
* `Document.overlay_again` - laying a document over another twice is the same as once.
* `Settings.ofDocument?_object` - what a document with all settings holds.
* `Settings.overrides_exactly` - documents laid over others, and settings loaded over the defaults.
-/

namespace LambdaSql.Document

variable {base upper d value : Document} {base? : Option Document} {members others : List (String × Document)}
variable {name : String} {path : List String}

/-! ## Paths -/

/-- Whether a document is an object. -/
def isObject : Document → Bool
  | object _ => true
  | _ => false

/-- What a path of names leads to. -/
def at? : Document → List String → Option Document
  | d, [] => some d
  | object members, name :: rest => (find? name members).bind (at? · rest)
  | _, _ :: _ => none

/-- A path ends before its last name, at an object that has no member of the next name. -/
def Lacks : Document → List String → Prop
  | object members, name :: rest => ∀ d, find? name members = some d → d.Lacks rest
  | _, _ => False

/-- A path of one name leads to the member of that name. -/
private theorem at?_singleton (members : List (String × Document)) (name : String) :
    (object members).at? [name] = find? name members := by
  cases h : find? name members <;> simp only [at?, h, Option.bind_none, Option.bind_some]

/-- A path leads on from the member of its first name. -/
private theorem at?_cons (d : Document) (name : String) (rest : List String) :
    d.at? (name :: rest) = (d.at? [name]).bind (at? · rest) := by
  cases d with
  | object members => rw [at?_singleton, at?]
  | _ => rfl

/-- A member of a proper document is proper. -/
theorem Proper.at? (h : d.Proper) (hat : d.at? [name] = some value) : value.Proper := by
  cases h with
  | object hordered hmembers =>
    rw [at?_singleton] at hat
    exact hmembers _ (mem_of_find? hat)
  | _ => cases hat

/-- Members of different names are all in the object that they make. -/
theorem at?_ofMembers (hnames : (members.map Prod.fst).Nodup) (hmem : (name, value) ∈ members) :
    (ofMembers members).at? [name] = some value := by
  rw [ofMembers, at?_singleton]
  induction members using List.reverseRecOn with
  | nil => cases hmem
  | append_singleton rest m ih =>
    rw [List.map_append, List.nodup_append] at hnames
    obtain ⟨hrest, -, hnew⟩ := hnames
    rw [List.foldl_append, List.foldl_cons, List.foldl_nil]
    obtain hmem | hmem := List.mem_append.mp hmem
    · rw [find?_insert_of_ne (hnew name (List.mem_map_of_mem hmem) m.1 (List.mem_singleton_self _))]
      exact ih hrest hmem
    · obtain rfl := List.mem_singleton.mp hmem
      exact find?_insert_self ..

/-! ## Laying one document over another -/

/-- A document over one that may be there. -/
def overlay (base? : Option Document) (upper : Document) : Document := base?.elim upper (merge · upper)

/-- What is no object takes the place of what it is merged into. -/
private theorem merge_of_not_object (h : upper.isObject = false) (base : Document) : merge base upper = upper := by
  cases upper with
  | object => cases h
  | _ => unfold merge; rfl

/-- What is no object replaces what is under it. -/
theorem overlay_of_not_object (h : upper.isObject = false) (base? : Option Document) : overlay base? upper = upper := by
  cases base? with
  | none => rfl
  | some base => exact merge_of_not_object h base

/-- Members are merged one by one, the first one into the member of its name. -/
private theorem mergeMembers_cons (base : List (String × Document)) (name : String) (value : Document)
    (rest : List (String × Document)) :
    mergeMembers base ((name, value) :: rest) =
      mergeMembers (insert name (overlay (find? name base) value) base) rest := by
  rw [mergeMembers]
  cases find? name base <;> rfl

/-- **A member of merged objects** is that of the upper one over that of the lower one, by induction on the members of the
upper one.

**Proof sketch.** Each member of the upper object is put in over the one of its name. Since the members are ordered,
those that follow have other names, and what has been put in stays. -/
theorem find?_mergeMembers (h : Ordered others) (name : String) (members : List (String × Document)) :
    find? name (mergeMembers members others) =
      (find? name others).elim (find? name members) fun value => some (overlay (find? name members) value) := by
  induction others generalizing members with
  | nil => rw [mergeMembers]; rfl
  | cons m rest ih =>
    obtain ⟨n, v⟩ := m
    obtain ⟨hn, hrest⟩ := List.pairwise_cons.mp h
    rw [mergeMembers_cons, ih hrest]
    by_cases hname : name = n
    · -- the members that follow have greater names, so that what is put in now stays
      have hnone : find? n rest = none := by
        cases hfind : find? n rest with
        | none => rfl
        | some v => exact absurd (hn _ (mem_of_find? hfind)) (lt_irrefl n)
      rw [hname, hnone, find?_cons_self, find?_insert_self]
      rfl
    · rw [find?_insert_of_ne hname, find?_cons_of_ne hname]

/-- Ordered members stay ordered when others are merged into them. -/
theorem Ordered.mergeMembers (h : Ordered members) (others : List (String × Document)) :
    Ordered (mergeMembers members others) := by
  induction others generalizing members with
  | nil => rwa [Document.mergeMembers]
  | cons m rest ih =>
    rw [mergeMembers_cons]
    exact ih (h.insert ..)

/-- An object over a document that may be there is an object, whose members are those of the one over those of the
other. -/
theorem overlay_object (h : Ordered others) (base? : Option Document) :
    ∃ merged, overlay base? (object others) = object merged ∧
      (∀ name, find? name merged =
        (find? name others).elim (base?.bind (at? · [name])) fun value =>
          some (overlay (base?.bind (at? · [name])) value)) ∧
      ((∀ base ∈ base?, base.Proper) → Ordered merged) := by
  have hnone (name : String) :
      find? name others = (find? name others).elim none fun value => some (overlay none value) := by
    cases find? name others <;> rfl
  cases base? with
  | none => exact ⟨others, rfl, hnone, fun _ => h⟩
  | some base =>
    cases base with
    | object members =>
      refine ⟨mergeMembers members others, by rw [overlay, Option.elim_some, merge], fun name => ?_, fun hbase => ?_⟩
      · rw [find?_mergeMembers h, Option.bind_some, at?_singleton]
      · cases hbase _ rfl with
        | object hordered => exact hordered.mergeMembers others
    | _ => exact ⟨others, rfl, hnone, fun _ => h⟩

/-! ## What is at a path -/

/-- One step along a path. -/
theorem at?_overlay_cons (h : Ordered others) (base? : Option Document) (name : String) (rest : List String) :
    (overlay base? (object others)).at? (name :: rest) =
      (find? name others).elim (base?.bind (at? · (name :: rest))) fun value =>
        (overlay (base?.bind (at? · [name])) value).at? rest := by
  obtain ⟨merged, hmerged, hfind, -⟩ := overlay_object h base?
  rw [hmerged, at?, hfind]
  cases find? name others with
  | none =>
    rw [Option.elim_none, Option.elim_none, Option.bind_assoc]
    exact congrArg base?.bind (funext fun d => (at?_cons d name rest).symm)
  | some value => rfl

/-- **What the upper document has at a path, the merged one has there**, by induction on the path.

**Proof sketch.** What is no object replaces what is below it, and an object is merged member by member, so that the
rest of the path is followed in the member. -/
theorem at?_overlay_of_not_object (hupper : upper.Proper) (hat : upper.at? path = some value)
    (hvalue : value.isObject = false) (base? : Option Document) : (overlay base? upper).at? path = some value := by
  induction path generalizing upper base? with
  | nil =>
    cases hat
    rw [overlay_of_not_object hvalue]
    rfl
  | cons name rest ih =>
    cases hupper with
    | object hordered hmembers =>
      obtain ⟨u, hu, hrest⟩ := Option.bind_eq_some_iff.mp hat
      rw [at?_overlay_cons hordered, hu]
      exact ih (hmembers _ (mem_of_find? hu)) hrest _
    | _ => cases hat

/-- **At a path that the upper document lacks, the lower one shows**, by induction on the path.

**Proof sketch.** The upper document is an object that either has no member of the first name, so that the lower one's
stays, or lacks the rest of the path in that member. -/
theorem at?_overlay_of_lacks (hupper : upper.Proper) (hlacks : upper.Lacks path) (base? : Option Document) :
    (overlay base? upper).at? path = base?.bind (at? · path) := by
  induction path generalizing upper base? with
  | nil => cases upper <;> exact hlacks.elim
  | cons name rest ih =>
    cases hupper with
    | @object others hordered hmembers =>
      rw [at?_overlay_cons hordered]
      cases hu : find? name others with
      | none => rfl
      | some u =>
        rw [Option.elim_some, ih (hmembers _ (mem_of_find? hu)) (hlacks u hu), Option.bind_assoc]
        exact congrArg base?.bind (funext fun d => (at?_cons d name rest).symm)
    | _ => exact hlacks.elim

/-- **Laying a document over another twice is the same as once**, by induction on the upper document.

**Proof sketch.** Both sides are objects with the same members in order, so it is enough to look up each name: what
the upper document has there is laid over itself once more, and nothing else is changed. -/
theorem overlay_again (hupper : upper.Proper) (hbase : ∀ base ∈ base?, base.Proper) :
    merge (overlay base? upper) upper = overlay base? upper := by
  induction hupper generalizing base? with
  | @object others hordered hmembers ih =>
    obtain ⟨merged, hmerged, hfind, hproper⟩ := overlay_object hordered base?
    rw [hmerged, merge]
    have hmerged := hproper hbase
    -- both objects have their members in order, so it is enough to look them up
    refine congrArg object ((hmerged.mergeMembers others).ext hmerged fun name => ?_)
    rw [find?_mergeMembers hordered, hfind]
    cases hvalue : find? name others with
    | none => rfl
    | some value =>
      have hbelow : ∀ d ∈ base?.bind (Document.at? · [name]), d.Proper := fun d hd => by
        obtain ⟨base, hmem, hd⟩ := Option.bind_eq_some_iff.mp hd
        exact (hbase base hmem).at? hd
      exact congrArg some (ih _ (mem_of_find? hvalue) hbelow)
  | _ => rw [merge_of_not_object rfl, overlay_of_not_object rfl]

/-- Over a document without members, a document stays as it is. -/
theorem merge_of_blank (hupper : upper.Proper) (hbase : ∀ members, base = object members → members = []) :
    merge base upper = upper := by
  cases hupper with
  | @object others hordered hmembers =>
    cases base with
    | object members =>
      obtain rfl := hbase members rfl
      rw [merge]
      refine congrArg object ((Ordered.mergeMembers .nil others).ext hordered fun name => ?_)
      rw [find?_mergeMembers hordered]
      cases find? name others <;> rfl
    | _ => unfold merge; rfl
  | _ => exact merge_of_not_object rfl base

end LambdaSql.Document

namespace LambdaSql.Settings

open Document

variable {members : List (String × Document)} {s : Settings}

/-! ## The settings one by one -/

/-- A setting: its name in documents, its place among the settings, and how it is written and read. -/
structure Entry where
  name : String
  Content : Type
  get : Settings → Content
  write : Content → Document
  read : Document → Option Content
  read_write : ∀ c, read (write c) = some c

/-- A policy is read from its name. -/
private theorem policy?_name (p : EmptyInPolicy) : policy? (.string p.name) = some p := by cases p <;> decide

/-- A character is read from a text of just this character. -/
private theorem char?_singleton (c : Char) : char? (.string (String.singleton c)) = some c := by
  simp only [char?, text?, Option.bind_eq_bind, Option.bind_some, String.toList_singleton]

/-- All settings. -/
def entries : List Entry := [
  ⟨"debug", Bool, (·.debug), .bool, bool?, fun _ => rfl⟩,
  ⟨"log_level", String, (·.logLevel), .string, text?, fun _ => rfl⟩,
  ⟨"dialect", String, (·.dialect), .string, text?, fun _ => rfl⟩,
  ⟨"parameter_prefix", Char, (·.options.mark), fun c => .string (String.singleton c), char?, char?_singleton⟩,
  ⟨"anonymous_parameter_name", String, (·.options.stem), .string, text?, fun _ => rfl⟩,
  ⟨"first_table_alias", Char, (·.options.firstAlias), fun c => .string (String.singleton c), char?, char?_singleton⟩,
  ⟨"empty_in_policy", EmptyInPolicy, (·.options.emptyIn), fun p => .string p.name, policy?, policy?_name⟩,
  ⟨"fold_constant_calls", Bool, (·.options.foldCalls), .bool, bool?, fun _ => rfl⟩,
  ⟨"extra", List (String × Document), (·.extra), .object, members?, fun _ => rfl⟩]

/-- The document of settings has a member for each entry. -/
private theorem toDocument_eq (s : Settings) :
    s.toDocument = ofMembers (entries.map fun e => (e.name, e.write (e.get s))) := rfl

/-- The entries have different names. -/
private theorem nodup_names : (entries.map Entry.name).Nodup := by decide

/-- Reading goes on with a setting only if there is a member of its name that can be read. -/
theorem read_bind_eq_some {α β : Type} {name : String} {read : Document → Option α} {rest : α → Option β} {b : β} :
    ((find? name members).bind fun d => (read d).bind rest) = some b ↔
      ∃ a, (find? name members).bind read = some a ∧ rest a = some b := by
  rw [← Option.bind_assoc, Option.bind_eq_some_iff]

/-- **What a document with all settings holds**: each setting is read from the member of its name.

**Proof sketch.** The settings are read one after the other, each from its member, and all of them are read or none.
-/
theorem ofDocument?_object :
    ofDocument? (.object members) = some s ↔ ∀ e ∈ entries, (find? e.name members).bind e.read = some (e.get s) := by
  rw [ofDocument?, fields?, Option.bind_eq_bind, Option.bind_some]
  simp only [entries, List.forall_mem_cons]
  constructor
  · intro h
    obtain ⟨debug, hdebug, h⟩ := read_bind_eq_some.mp h
    obtain ⟨level, hlevel, h⟩ := read_bind_eq_some.mp h
    obtain ⟨dialect, hdialect, h⟩ := read_bind_eq_some.mp h
    obtain ⟨mark, hmark, h⟩ := read_bind_eq_some.mp h
    obtain ⟨stem, hstem, h⟩ := read_bind_eq_some.mp h
    obtain ⟨first, hfirst, h⟩ := read_bind_eq_some.mp h
    obtain ⟨empty, hempty, h⟩ := read_bind_eq_some.mp h
    obtain ⟨fold, hfold, h⟩ := read_bind_eq_some.mp h
    obtain ⟨extra, hextra, h⟩ := read_bind_eq_some.mp h
    cases h
    exact ⟨hdebug, hlevel, hdialect, hmark, hstem, hfirst, hempty, hfold, hextra, List.forall_mem_nil _⟩
  · rintro ⟨hdebug, hlevel, hdialect, hmark, hstem, hfirst, hempty, hfold, hextra, -⟩
    refine read_bind_eq_some.mpr ⟨_, hdebug, read_bind_eq_some.mpr ⟨_, hlevel, ?_⟩⟩
    refine read_bind_eq_some.mpr ⟨_, hdialect, read_bind_eq_some.mpr ⟨_, hmark, ?_⟩⟩
    refine read_bind_eq_some.mpr ⟨_, hstem, read_bind_eq_some.mpr ⟨_, hfirst, ?_⟩⟩
    refine read_bind_eq_some.mpr ⟨_, hempty, read_bind_eq_some.mpr ⟨_, hfold, ?_⟩⟩
    exact read_bind_eq_some.mpr ⟨_, hextra, rfl⟩

/-- The document of settings has the value of each entry under its name. -/
private theorem at?_toDocument (s : Settings) {e : Entry} (he : e ∈ entries) :
    s.toDocument.at? [e.name] = some (e.write (e.get s)) := by
  have hnames : ((entries.map fun e => (e.name, e.write (e.get s))).map Prod.fst).Nodup := by
    rw [List.map_map]
    exact nodup_names
  rw [toDocument_eq]
  exact at?_ofMembers hnames (List.mem_map.mpr ⟨e, he, rfl⟩)

/-- The defaults have no members below the settings. -/
theorem blank_default {e : Entry} (he : e ∈ entries) (ms : List (String × Document))
    (h : e.write (e.get {}) = object ms) : ms = [] := by
  simp only [entries, List.mem_cons, List.not_mem_nil, or_false] at he
  obtain rfl | rfl | rfl | rfl | rfl | rfl | rfl | rfl | rfl := he <;> cases h
  rfl

/-- **Settings of an object.** A setting that the object leaves out has its default, and one that it holds is read as it
stands there.

**Proof sketch.** Settings are read from the object laid over the default settings. A member that is left out is the
default, which is read as it was written; any other one replaces the default, which has no members of its own. -/
theorem ofPartial?_object (hproper : (object members).Proper) :
    ofPartial? (object members) = some s ↔
      ∀ e ∈ entries, (find? e.name members).elim (some (e.get {})) e.read = some (e.get s) := by
  cases hproper with
  | object hordered hmembers =>
    obtain ⟨merged, hmerged, hfind, -⟩ := overlay_object hordered (some ({} : Settings).toDocument)
    have hpartial : ofPartial? (object members) = ofDocument? (object merged) := congrArg ofDocument? hmerged
    rw [hpartial, ofDocument?_object]
    refine forall₂_congr fun e he => ?_
    rw [hfind, Option.bind_some, at?_toDocument {} he]
    cases hvalue : find? e.name members with
    | none =>
      -- the default, which is read as it was written
      rw [Option.elim_none, Option.elim_none, Option.bind_some, e.read_write]
    | some value =>
      have hmerge : merge (e.write (e.get {})) value = value :=
        merge_of_blank (hmembers _ (mem_of_find? hvalue)) (blank_default he)
      rw [Option.elim_some, Option.elim_some, Option.bind_some, overlay, Option.elim_some, hmerge]

/-- A document that is read from a text is proper. -/
private theorem proper_of_document? {format : SettingsFormat} {text : String} {d : Document}
    (h : document? format text = some d) : d.Proper := by
  cases format with
  | toml => exact Toml.proper_of_parse? h
  | json => exact Document.proper_of_parse? h

/-- A text is read as the settings of its document. -/
private theorem ofText_eq_ok {format : SettingsFormat} {text : String} {d : Document}
    (h : document? format text = some d) :
    ofText format text = .ok s ↔ ofPartial? d = some s := by
  rw [ofText, h]
  cases hpartial : ofPartial? d <;> simp [hpartial]

/-- **Settings override exactly what a document says.** At every path, a document over another shows what it has there
itself, and otherwise the other one; and it does no more when it is laid over again. So a setting that a text leaves out
keeps its default, and one that it holds is read as it stands there.

**Proof sketch.** By induction on the upper document along a path: a member of merged objects is the upper one laid
over the lower one if both have it, and else the one that is there. Laying the upper document over the result again
finds each of its members in place. Settings are read member by member from the merged document, and those of the
defaults are the defaults. -/
theorem overrides_exactly :
    (∀ {base upper : Document}, base.Proper → upper.Proper →
      (∀ {path value}, upper.at? path = some value → value.isObject = false →
        (merge base upper).at? path = some value) ∧
      (∀ {path}, upper.Lacks path → (merge base upper).at? path = base.at? path) ∧
      merge (merge base upper) upper = merge base upper) ∧
    ∀ {format text members}, document? format text = some (.object members) → ∀ s,
      ofText format text = .ok s ↔
        ∀ e ∈ entries, (find? e.name members).elim (some (e.get {})) e.read = some (e.get s) := by
  constructor
  · intro base upper hbase hupper
    have hbase : ∀ d ∈ some base, d.Proper := fun d hd => Option.mem_some_iff.mp hd ▸ hbase
    refine ⟨?_, ?_, ?_⟩
    · intro path value hat hvalue
      exact at?_overlay_of_not_object hupper hat hvalue (some base)
    · intro path hlacks
      exact at?_overlay_of_lacks hupper hlacks (some base)
    · exact overlay_again hupper hbase
  · intro format text members h s
    rw [ofText_eq_ok h]
    exact ofPartial?_object (proper_of_document? h)

/-- A member of a member that only one of two documents has, and a text that chooses a dialect. -/
theorem nested_overrides :
    let base := object [("a", object [("x", .int 1)])]
    let upper := object [("a", object [("y", .int 2)])]
    (merge base upper).at? ["a", "y"] = some (.int 2) ∧ (merge base upper).at? ["a", "x"] = some (.int 1) ∧
    merge (merge base upper) upper = merge base upper ∧
    ofText .json "\x7b\"dialect\":\"x\"\x7d" = .ok { dialect := "x" } := by
  have hproper (name : String) (n : Int) : (object [("a", object [(name, .int n)])]).Proper := by
    have hinner : (object [(name, .int n)]).Proper :=
      .object (List.pairwise_singleton ..) (by simpa using Proper.int n)
    exact .object (List.pairwise_singleton ..) (by simpa using hinner)
  have hlaws := overrides_exactly.1 (hproper "x" 1) (hproper "y" 2)
  refine ⟨hlaws.1 rfl rfl, ?_, hlaws.2.2, ?_⟩
  · have hlacks : (object [("a", object [("y", .int 2)])]).Lacks ["a", "x"] := by
      intro d hd
      cases hd
      intro e he
      cases he
    exact (hlaws.2.1 hlacks).trans rfl
  · have hdocument :
        document? .json "\x7b\"dialect\":\"x\"\x7d" = some (object [("dialect", .string "x")]) := rfl
    refine (overrides_exactly.2 hdocument _).mpr ?_
    simp only [entries, List.forall_mem_cons]
    exact ⟨rfl, rfl, rfl, rfl, rfl, rfl, rfl, rfl, rfl, List.forall_mem_nil _⟩

end LambdaSql.Settings
