import Stencil.Project
import Stencil.Proofs.DiskTrees
import Stencil.Proofs.PatternReading
import Stencil.Proofs.VisitedEntries

/-!
# Which files are templates

The templates of a project are found by going through its directory, with whole directories passed over on the
way. What is found can be said of each file on its own, by the names that lead to it: the file is a template, and
each directory between the project and the file is one that is gone into. A link or a pipe is found as a file is, and
reported if it cannot be read.

`templates_exact` says that these are the files that are found, in their order and each once, and that what
becomes of each is what becomes of its own content.
-/

namespace Stencil

open Files (Disk Entry Route)

namespace Project

variable {patterns : List Text}

/-! ### Templates -/

/-- Whether some pattern matches the route through names. -/
def IsExcluded (patterns names : List Text) : Prop :=
  ∃ pattern ∈ patterns, Files.matchPattern pattern (Text.join "/" names) = .ok true

/-- Whether a directory is gone into, which has a name and stands in another one that `above` leads to. -/
structure IsEntered (patterns above : List Text) (name : Text) : Prop where
  shown : ¬ Text.ofString "." <+: name
  kept : ¬ IsExcluded patterns (above ++ [name])

/-- Whether names lead to a template from an entry that `above` leads to from the project. -/
structure IsTemplate (patterns above : List Text) (e : Entry) (names : List Text) : Prop where
  leaf : ∃ found, e.at? names = some found ∧ found.isDirectory = false
  ending : Text.ofString ".html" <:+ Text.join "/" (above ++ names)
  kept : ¬ IsExcluded patterns (above ++ names)
  entered : ∀ front name back, names = front ++ name :: back → back ≠ [] → IsEntered patterns (above ++ front) name

theorem isTemplate_leaf {e : Entry} (he : e.isDirectory = false) {above names : List Text} :
    IsTemplate patterns above e names ↔
      names = [] ∧ Text.ofString ".html" <:+ Text.join "/" above ∧ ¬ IsExcluded patterns above := by
  constructor
  · intro h
    obtain ⟨found, hfound, _⟩ := h.leaf
    cases names with
    | nil => exact ⟨rfl, by simpa using h.ending, by simpa using h.kept⟩
    | cons name names =>
      rw [Entry.at?_cons_of_not_isDirectory he] at hfound
      cases hfound
  · rintro ⟨rfl, hending, hkept⟩
    refine ⟨⟨e, by rw [Entry.at?], he⟩, by simpa using hending, by simpa using hkept, ?_⟩
    intro front name back hnames
    simp at hnames

/-- A template in a directory is a template in one of its entries, which is gone into if it is not the template
itself. -/
theorem isTemplate_directory {above names : List Text} {entries : List (Text × Entry)} :
    IsTemplate patterns above (.directory entries) names ↔
      ∃ name rest child, names = name :: rest ∧ Entries.get? name entries = some child ∧
        IsTemplate patterns (above ++ [name]) child rest ∧ (rest ≠ [] → IsEntered patterns above name) := by
  constructor
  · intro h
    obtain ⟨found, hfound, hleaf⟩ := h.leaf
    cases names with
    | nil =>
      rw [Entry.at?] at hfound
      obtain rfl := Option.some.inj hfound
      cases hleaf
    | cons name rest =>
      rw [Entry.at?] at hfound
      obtain ⟨child, hchild, hfound⟩ := Option.bind_eq_some_iff.mp hfound
      refine ⟨name, rest, child, rfl, hchild, ?_, ?_⟩
      · refine ⟨⟨found, hfound, hleaf⟩, by simpa using h.ending, by simpa using h.kept, ?_⟩
        intro front other back hrest hback
        simpa using h.entered (name :: front) other back (by rw [hrest]; rfl) hback
      · intro hrest
        simpa using h.entered [] name rest rfl hrest
  · rintro ⟨name, rest, child, rfl, hchild, h, hentered⟩
    obtain ⟨found, hfound, hleaf⟩ := h.leaf
    refine ⟨⟨found, ?_, hleaf⟩, by simpa using h.ending, by simpa using h.kept, ?_⟩
    · rw [Entry.at?, hchild]
      exact hfound
    · intro front other back hnames hback
      cases front with
      | nil =>
        obtain ⟨rfl, rfl⟩ := List.cons.inj hnames
        simpa using hentered hback
      | cons first front =>
        obtain ⟨rfl, hrest⟩ := List.cons.inj hnames
        simpa using h.entered front other back hrest hback

/-- A template in a directory is a template in its first entry or among the others. -/
theorem isTemplate_directory_cons {above names : List Text} {name : Text} {e : Entry}
    {rest : List (Text × Entry)} (hname : name ∉ Entries.names rest) :
    IsTemplate patterns above (.directory ((name, e) :: rest)) names ↔
      (∃ tail, names = name :: tail ∧ IsTemplate patterns (above ++ [name]) e tail ∧
        (tail ≠ [] → IsEntered patterns above name)) ∨ IsTemplate patterns above (.directory rest) names := by
  rw [isTemplate_directory, isTemplate_directory]
  constructor
  · rintro ⟨first, tail, child, rfl, hchild, h⟩
    by_cases hfirst : name = first
    · subst hfirst
      rw [Entries.get?, if_pos rfl] at hchild
      obtain rfl := Option.some.inj hchild
      exact .inl ⟨tail, rfl, h⟩
    · rw [Entries.get?, if_neg hfirst] at hchild
      exact .inr ⟨first, tail, child, rfl, hchild, h⟩
  · rintro (⟨tail, rfl, h⟩ | ⟨first, tail, child, rfl, hchild, h⟩)
    · exact ⟨name, tail, e, rfl, by rw [Entries.get?, if_pos rfl], h⟩
    · have hfirst : name ≠ first := by
        intro heq
        rw [← heq, Entries.get?_eq_none hname] at hchild
        cases hchild
      exact ⟨first, tail, child, rfl, by rw [Entries.get?, if_neg hfirst, hchild], h⟩

/-! ### Finding them -/

/-- A pattern that can be read is matched or not, whatever the route. -/
theorem exists_matchPattern_eq {pattern : Text} (hpattern : Settings.checkPattern? pattern = none) (r : Route) :
    ∃ matched, Files.matchPattern pattern r = .ok matched := by
  apply Files.Pattern.isOk_eq_true_iff.mp
  rw [Files.matchPattern_isOk pattern r []]
  rw [Settings.checkPattern?] at hpattern
  split at hpattern
  · rename_i matched hmatched
    exact Files.Pattern.isOk_eq_true_iff.mpr ⟨matched, hmatched⟩
  · cases hpattern

theorem templatesOf_leaf {e : Entry} (he : e.isDirectory = false) (patterns : List Text) (r : Route) (name : Text) :
    templatesOf patterns r name e =
      match isLeftOut patterns r with
      | .error e => .error e
      | .ok leftOut => .ok (if !leftOut && r.endsWith templateEnding then [r] else []) := by
  cases e with
  | directory entries => cases he
  | _ => rfl

theorem exists_isLeftOut_eq (hpatterns : ∀ pattern ∈ patterns, Settings.checkPattern? pattern = none)
    (names : List Text) :
    ∃ leftOut, isLeftOut patterns (Text.join "/" names) = .ok leftOut ∧
      (leftOut = true ↔ IsExcluded patterns names) := by
  induction patterns with
  | nil => exact ⟨false, rfl, by simp [IsExcluded]⟩
  | cons pattern rest ih =>
    obtain ⟨hpattern, hrest⟩ := List.forall_mem_cons.mp hpatterns
    obtain ⟨leftOut, hleft, hiff⟩ := ih hrest
    obtain ⟨matched, hmatched⟩ := exists_matchPattern_eq hpattern (Text.join "/" names)
    rw [isLeftOut, hmatched]
    cases matched with
    | true => exact ⟨true, rfl, by simp [IsExcluded, hmatched]⟩
    | false => exact ⟨leftOut, hleft, by simp [IsExcluded, hmatched, hiff]⟩

theorem below_join {above : List Text} (habove : ∀ name ∈ above, Route.IsName name) (name : Text) :
    below (Text.join "/" above) name = Text.join "/" (above ++ [name]) := by
  rw [below]
  cases above with
  | nil => rfl
  | cons first above =>
    have hne := Route.join_names_ne_nil habove (List.cons_ne_nil first above)
    rw [if_neg (by simpa using hne), Text.join_append (List.cons_ne_nil first above) (List.cons_ne_nil name [])]
    rfl

/-- A list of what is wanted, each once. -/
structure Lists (found : List (List Text)) (wanted : List Text → Prop) : Prop where
  once : found.Nodup
  mem_iff : ∀ names, names ∈ found ↔ wanted names

theorem Lists.nothing {wanted : List Text → Prop} (hwanted : ∀ names, ¬ wanted names) : Lists [] wanted :=
  ⟨List.nodup_nil, fun names => by simp [hwanted names]⟩

theorem Lists.here {wanted : List Text → Prop} (hwanted : ∀ names, wanted names ↔ names = []) : Lists [[]] wanted :=
  ⟨by simp, fun names => by simp [hwanted names]⟩

/-- The templates in the first entry of a directory and those among the others. -/
theorem Lists.append {above : List Text} {name : Text} {e : Entry} {rest : List (Text × Entry)}
    {first others : List (List Text)}
    (hfirst : Lists first fun names =>
      IsTemplate patterns (above ++ [name]) e names ∧ (names ≠ [] → IsEntered patterns above name))
    (hothers : Lists others (IsTemplate patterns above (.directory rest))) (hname : name ∉ Entries.names rest) :
    Lists (first.map (name :: ·) ++ others) (IsTemplate patterns above (.directory ((name, e) :: rest))) := by
  constructor
  · have honce : (first.map (name :: ·)).Nodup :=
      List.Pairwise.map _ (fun tail other hne heq => hne (List.cons.inj heq).2) hfirst.once
    refine List.nodup_append.mpr ⟨honce, hothers.once, ?_⟩
    intro names hin other hout heq
    obtain ⟨tail, _, rfl⟩ := List.mem_map.mp hin
    rw [← heq, hothers.mem_iff] at hout
    obtain ⟨n, _, child, hnames, hchild, _⟩ := isTemplate_directory.mp hout
    rw [← (List.cons.inj hnames).1, Entries.get?_eq_none hname] at hchild
    cases hchild
  · intro names
    rw [isTemplate_directory_cons hname, List.mem_append, hothers.mem_iff, List.mem_map]
    apply or_congr_left
    constructor
    · rintro ⟨tail, htail, rfl⟩
      exact ⟨tail, rfl, (hfirst.mem_iff tail).mp htail⟩
    · rintro ⟨tail, rfl, htail⟩
      exact ⟨tail, (hfirst.mem_iff tail).mpr htail, rfl⟩

/-- What is found at what is no directory: itself or nothing. -/
theorem exists_templatesOf_leaf_eq (hpatterns : ∀ pattern ∈ patterns, Settings.checkPattern? pattern = none)
    (above : List Text) (name : Text) {e : Entry} (he : e.isDirectory = false) : ∃ found,
      templatesOf patterns (Text.join "/" (above ++ [name])) name e =
        .ok (found.map fun names => Text.join "/" (above ++ name :: names)) ∧
      Lists found fun names =>
        IsTemplate patterns (above ++ [name]) e names ∧ (names ≠ [] → IsEntered patterns above name) := by
  obtain ⟨leftOut, hleft, hexcluded⟩ := exists_isLeftOut_eq hpatterns (above ++ [name])
  have hwanted : (!leftOut && Text.endsWith (Text.join "/" (above ++ [name])) templateEnding) = true ↔
      Text.ofString ".html" <:+ Text.join "/" (above ++ [name]) ∧ ¬ IsExcluded patterns (above ++ [name]) := by
    rw [← hexcluded, Bool.and_eq_true, Bool.not_eq_true', Text.endsWith, List.isSuffixOf_iff_suffix, and_comm,
      Bool.not_eq_true]
    rfl
  rw [templatesOf_leaf he, hleft]
  dsimp only
  split
  · rename_i hcond
    have h := hwanted.mp hcond
    refine ⟨[[]], rfl, Lists.here fun names => ?_⟩
    rw [isTemplate_leaf he]
    exact ⟨fun h => h.1.1, fun hnames => ⟨⟨hnames, h⟩, fun hne => absurd hnames hne⟩⟩
  · rename_i hcond
    refine ⟨[], rfl, Lists.nothing fun names => ?_⟩
    rw [isTemplate_leaf he]
    exact fun h => hcond (hwanted.mpr h.1.2)

mutual

/-- What is found in an entry, which is passed over as a whole if it is a directory that is not gone into. -/
theorem exists_templatesOf_eq (hpatterns : ∀ pattern ∈ patterns, Settings.checkPattern? pattern = none)
    {above : List Text} (habove : ∀ name ∈ above, Route.IsName name) {name : Text} (hname : Route.IsName name) :
    ∀ e : Entry, e.IsSound → ∃ found,
      templatesOf patterns (Text.join "/" (above ++ [name])) name e =
        .ok (found.map fun names => Text.join "/" (above ++ name :: names)) ∧
      Lists found fun names =>
        IsTemplate patterns (above ++ [name]) e names ∧ (names ≠ [] → IsEntered patterns above name)
  | .file _, _ => exists_templatesOf_leaf_eq hpatterns above name rfl
  | .special _, _ => exists_templatesOf_leaf_eq hpatterns above name rfl
  | .directory entries, he => by
    obtain ⟨leftOut, hleft, hexcluded⟩ := exists_isLeftOut_eq hpatterns (above ++ [name])
    have hentered : ¬ (leftOut || name.startsWith ".") = true ↔ IsEntered patterns above name := by
      rw [Bool.or_eq_true, hexcluded, Text.startsWith, List.isPrefixOf_iff_prefix, not_or]
      exact ⟨fun h => ⟨h.2, h.1⟩, fun h => ⟨h.kept, h.shown⟩⟩
    rw [templatesOf, hleft]
    dsimp only
    split
    · rename_i hcond
      refine ⟨[], rfl, Lists.nothing ?_⟩
      rintro names ⟨h, hnames⟩
      obtain ⟨first, tail, child, rfl, _⟩ := isTemplate_directory.mp h
      exact hentered.mpr (hnames (List.cons_ne_nil first tail)) hcond
    · rename_i hcond
      have hnames : ∀ n ∈ above ++ [name], Route.IsName n :=
        List.forall_mem_append.mpr ⟨habove, List.forall_mem_singleton.mpr hname⟩
      obtain ⟨found, hfound, hlists⟩ := exists_templatesAmong_eq hpatterns hnames entries he.1 he.2
      refine ⟨found, by simpa using hfound, hlists.once, fun names => ?_⟩
      rw [hlists.mem_iff, iff_self_and]
      exact fun _ _ => hentered.mp hcond

/-- What is found among the entries of a directory. -/
theorem exists_templatesAmong_eq (hpatterns : ∀ pattern ∈ patterns, Settings.checkPattern? pattern = none)
    {above : List Text} (habove : ∀ name ∈ above, Route.IsName name) :
    ∀ entries : List (Text × Entry), (Entries.names entries).Nodup → Entry.SoundIn entries → ∃ found,
      templatesAmong patterns (Text.join "/" above) entries =
        .ok (found.map fun names => Text.join "/" (above ++ names)) ∧
      Lists found (IsTemplate patterns above (.directory entries))
  | [], _, _ => by
    refine ⟨[], rfl, Lists.nothing fun names h => ?_⟩
    obtain ⟨first, tail, child, _, hchild, _⟩ := isTemplate_directory.mp h
    cases hchild
  | (name, e) :: rest, honce, hsound => by
    obtain ⟨hname, honce⟩ := List.nodup_cons.mp honce
    obtain ⟨first, hfirst, hlists⟩ := exists_templatesOf_eq hpatterns habove hsound.1 e hsound.2.1
    obtain ⟨others, hothers, hrest⟩ := exists_templatesAmong_eq hpatterns habove rest honce hsound.2.2
    refine ⟨first.map (name :: ·) ++ others, ?_, hlists.append hrest hname⟩
    rw [templatesAmong, below_join habove, hfirst, hothers, List.map_append, List.map_map]
    rfl

end

/-! ### Their order -/

/-- The directory of a project as an entry of a disk, and the names that lead to it. -/
structure IsRoot (d : Disk) (p : Project) (above : List Text) (root : Entry) : Prop where
  names : ∀ name ∈ above, Route.IsName name
  place : p.root = Route.ofNames true above
  top : d.top.isDirectory = true
  found : d.top.at? above = some root
  directory : root.isDirectory = true
  sound : root.IsSound

section Root

variable {d : Disk} {p : Project} {above : List Text} {root : Entry}

theorem IsTemplate.names_ne_nil {names : List Text} (h : IsTemplate patterns [] root names)
    (hroot : IsRoot d p above root) : names ≠ [] := by
  intro hnames
  obtain ⟨found, hfound, hleaf⟩ := h.leaf
  rw [hnames, Entry.at?] at hfound
  rw [← Option.some.inj hfound, hroot.directory] at hleaf
  cases hleaf

theorem IsTemplate.isName {names : List Text} (h : IsTemplate patterns [] root names)
    (hroot : IsRoot d p above root) : ∀ name ∈ names, Route.IsName name := by
  obtain ⟨found, hfound, _⟩ := h.leaf
  exact (hroot.sound.at? hfound).1

theorem IsTemplate.splitOn_join {names : List Text} (h : IsTemplate patterns [] root names)
    (hroot : IsRoot d p above root) : Text.splitOn 0x2F (Text.join "/" names) = names :=
  Route.splitOn_join_names (h.isName hroot) (h.names_ne_nil hroot)

theorem IsTemplate.join_root {names : List Text} (h : IsTemplate patterns [] root names)
    (hroot : IsRoot d p above root) :
    Route.join [p.root, Text.join "/" names] = Route.ofNames true (above ++ names) := by
  rw [hroot.place]
  exact Route.join_ofNames hroot.names (h.isName hroot) (h.names_ne_nil hroot)

/-- The routes to the templates of a directory, in bytewise order. -/
structure ListsInOrder (routes : List Route) (patterns : List Text) (root : Entry)
    (routeTo : List Text → Route) : Prop where
  ordered : routes.Pairwise Text.Precedes
  mem_iff : ∀ r, r ∈ routes ↔ ∃ names, IsTemplate patterns [] root names ∧ r = routeTo names

theorem exists_templates_eq (hroot : IsRoot d p above root)
    (hpatterns : ∀ pattern ∈ p.exclude, Settings.checkPattern? pattern = none) :
    ∃ routes, templates d p = .ok routes ∧ ListsInOrder routes p.exclude root (Text.join "/") := by
  have hfind : d.find p.root = .ok root := by
    rw [hroot.place]
    exact (Disk.find_ofNames_eq_ok_iff hroot.names).mpr ⟨hroot.top, hroot.found⟩
  cases root with
  | file content => cases hroot.directory
  | special reading => cases hroot.directory
  | directory entries =>
    have hnone : ∀ name ∈ ([] : List Text), Route.IsName name := by simp
    obtain ⟨found, hfound, hlists⟩ := exists_templatesAmong_eq hpatterns hnone entries hroot.sound.1 hroot.sound.2
    refine ⟨(found.map (Text.join "/")).mergeSort Text.le, ?_, ?_, fun r => ?_⟩
    · rw [templates, hfind]
      exact congrArg (Except.map _) hfound
    · have hsorted : ((found.map (Text.join "/")).mergeSort Text.le).Pairwise fun s t => s.le t = true :=
        List.pairwise_mergeSort Text.le_trans Text.le_total _
      -- Names can be read off a route, so different templates have different routes.
      have honce : (found.map (Text.join "/")).Nodup := by
        refine List.pairwise_map.mpr (hlists.once.imp_of_mem ?_)
        intro names others hnames hothers hne heq
        rw [hlists.mem_iff] at hnames hothers
        rw [← hnames.splitOn_join hroot, ← hothers.splitOn_join hroot, heq] at hne
        exact hne rfl
      exact hsorted.imp₂ (fun s t => Text.precedes_of_le) ((List.mergeSort_perm _ _).nodup_iff.mpr honce)
    · rw [(List.mergeSort_perm _ _).mem_iff, List.mem_map]
      constructor
      · rintro ⟨names, hnames, rfl⟩
        exact ⟨names, (hlists.mem_iff names).mp hnames, rfl⟩
      · rintro ⟨names, hnames, rfl⟩
        exact ⟨names, (hlists.mem_iff names).mpr hnames, rfl⟩

theorem precedes_append {s t : Text} (h : s.Precedes t) (front : Text) : (front ++ s).Precedes (front ++ t) := by
  induction front with
  | nil => exact h
  | cons b front ih => exact .cons ih

/-- All routes below a directory begin alike. -/
theorem exists_ofNames_append (above : List Text) :
    ∃ front, ∀ names, names ≠ [] → Route.ofNames true (above ++ names) = front ++ Text.join "/" names := by
  cases above with
  | nil => exact ⟨"/", fun names _ => rfl⟩
  | cons first above =>
    refine ⟨"/" ++ Text.join "/" (first :: above) ++ "/", fun names hnames => ?_⟩
    have hroute : Route.ofNames true (first :: above ++ names) = "/" ++ Text.join "/" (first :: above ++ names) := rfl
    rw [hroute, Text.join_append (List.cons_ne_nil first above) hnames]
    simp only [List.append_assoc]

/-- The routes from the top are in the order of the routes from the project. -/
theorem exists_discover_eq (hroot : IsRoot d p above root) {routes : List Route}
    (hroutes : templates d p = .ok routes) (hsorted : ListsInOrder routes p.exclude root (Text.join "/")) :
    ∃ files, discover d p = .ok files ∧
      ListsInOrder files p.exclude root fun names => Route.ofNames true (above ++ names) := by
  refine ⟨routes.map fun r => Route.join [p.root, r], by rw [discover, hroutes]; rfl, ?_, fun r => ?_⟩
  · obtain ⟨front, hfront⟩ := exists_ofNames_append above
    refine List.pairwise_map.mpr (hsorted.ordered.imp_of_mem ?_)
    intro s t hs ht hst
    obtain ⟨names, hnames, rfl⟩ := (hsorted.mem_iff s).mp hs
    obtain ⟨others, hothers, rfl⟩ := (hsorted.mem_iff t).mp ht
    rw [hnames.join_root hroot, hothers.join_root hroot, hfront names (hnames.names_ne_nil hroot),
      hfront others (hothers.names_ne_nil hroot)]
    exact precedes_append hst front
  · rw [List.mem_map]
    constructor
    · rintro ⟨s, hs, rfl⟩
      obtain ⟨names, hnames, rfl⟩ := (hsorted.mem_iff s).mp hs
      exact ⟨names, hnames, hnames.join_root hroot⟩
    · rintro ⟨names, hnames, rfl⟩
      exact ⟨Text.join "/" names, (hsorted.mem_iff _).mpr ⟨names, hnames, rfl⟩, hnames.join_root hroot⟩

/-! ### What becomes of them -/

/-- A library has what became of some templates, each once. -/
structure Library.Records (l : Library) (outcome : Route → Except TemplateError (List Program.Op))
    (routes : List Route) : Prop where
  programs : ∀ r program, (r, program) ∈ l.programs ↔ r ∈ routes ∧ outcome r = .ok program
  failures : ∀ r e, (r, e) ∈ l.failures ↔ r ∈ routes ∧ outcome r = .error e
  each : (l.programs.map Prod.fst ++ l.failures.map Prod.fst).Perm routes

theorem mem_append_map_iff {α : Type} {es : List (Route × α)} {routes : List Route} {became : Route → α → Prop}
    (hes : ∀ s a, (s, a) ∈ es ↔ s ∈ routes ∧ became s a) {r : Route} {new : List α}
    (hnew : ∀ a, a ∈ new ↔ became r a) (s : Route) (a : α) :
    (s, a) ∈ es ++ new.map (Prod.mk r) ↔ s ∈ routes ++ [r] ∧ became s a := by
  rw [List.mem_append, hes, List.mem_append, List.mem_singleton, or_and_right, List.mem_map]
  apply or_congr_right
  constructor
  · rintro ⟨b, hb, heq⟩
    obtain ⟨rfl, rfl⟩ := Prod.mk.inj heq
    exact ⟨rfl, (hnew b).mp hb⟩
  · rintro ⟨rfl, ha⟩
    exact ⟨a, (hnew a).mpr ha, rfl⟩

theorem Library.Records.add {l : Library} {outcome : Route → Except TemplateError (List Program.Op)}
    {routes : List Route} (h : l.Records outcome routes) (r : Route) :
    (l.add r (outcome r)).Records outcome (routes ++ [r]) := by
  cases houtcome : outcome r with
  | ok program =>
    have hprogram : ∀ other, other ∈ [program] ↔ outcome r = .ok other := by simp [houtcome, eq_comm]
    have hnone : ∀ e, e ∈ [] ↔ outcome r = .error e := by simp [houtcome]
    have hfailures := mem_append_map_iff h.failures hnone
    rw [List.map_nil, List.append_nil] at hfailures
    refine ⟨mem_append_map_iff h.programs hprogram, hfailures, ?_⟩
    calc (l.programs ++ [(r, program)]).map Prod.fst ++ l.failures.map Prod.fst
        = l.programs.map Prod.fst ++ ([r] ++ l.failures.map Prod.fst) := by simp
      _ |>.Perm (l.programs.map Prod.fst ++ (l.failures.map Prod.fst ++ [r])) :=
          List.perm_append_comm.append_left _
      _ = l.programs.map Prod.fst ++ l.failures.map Prod.fst ++ [r] := (List.append_assoc _ _ _).symm
      _ |>.Perm (routes ++ [r]) := h.each.append_right [r]
  | error e =>
    have hfailure : ∀ other, other ∈ [e] ↔ outcome r = .error other := by simp [houtcome, eq_comm]
    have hnone : ∀ program, program ∈ [] ↔ outcome r = .ok program := by simp [houtcome]
    have hprograms := mem_append_map_iff h.programs hnone
    rw [List.map_nil, List.append_nil] at hprograms
    refine ⟨hprograms, mem_append_map_iff h.failures hfailure, ?_⟩
    rw [Library.add, List.map_append, ← List.append_assoc]
    exact h.each.append_right [r]

/-- Each template is recorded by what becomes of it alone. -/
theorem Library.Records.foldl {outcome : Route → Except TemplateError (List Program.Op)} (rs : List Route)
    {l : Library} {routes : List Route} (h : l.Records outcome routes) :
    (rs.foldl (fun l r => l.add r (outcome r)) l).Records outcome (routes ++ rs) := by
  induction rs generalizing l routes with
  | nil => rwa [List.append_nil]
  | cons r rs ih =>
    rw [List.append_cons]
    exact ih (h.add r)

/-- What becomes of an entry, by what reading it comes to and nothing else. -/
def outcomeOf (o : Options) (place url : Route) (e : Entry) : Except TemplateError (List Program.Op) :=
  match e.read with
  | .ok content => (compile { o with url := url } content).mapError .rejected
  | .error (action, trouble) => .error (.unreadable ⟨action, place, trouble⟩)

theorem compileFile_eq (hroot : IsRoot d p above root) {names : List Text}
    (h : IsTemplate patterns [] root names) {found : Entry} (hfound : root.at? names = some found) :
    compileFile d p (Route.join [p.root, Text.join "/" names]) =
      outcomeOf p.options (Route.ofNames true (above ++ names)) (Text.join "/" names) found := by
  have hfind : d.find (Route.ofNames true (above ++ names)) = .ok found := by
    have hat : d.top.at? (above ++ names) = some found := by
      rw [Entry.at?_append, hroot.found]
      exact hfound
    have hall : ∀ name ∈ above ++ names, Route.IsName name :=
      List.forall_mem_append.mpr ⟨hroot.names, h.isName hroot⟩
    exact (Disk.find_ofNames_eq_ok_iff hall).mpr ⟨hroot.top, hat⟩
  rw [compileFile, h.join_root hroot, Disk.read, hfind, hroot.place,
    Route.relative?_ofNames hroot.names (h.isName hroot) (h.names_ne_nil hroot), Option.getD_some, outcomeOf]
  dsimp only
  cases found.read with
  | error problem => rfl
  | ok content =>
    dsimp only
    cases compile { p.options with url := Text.join "/" names } content <;> rfl

/-- What becomes of the template at a route from a directory that `above` leads to. -/
def Becomes (patterns above : List Text) (root : Entry) (o : Options) (r : Route)
    (outcome : Except TemplateError (List Program.Op)) : Prop :=
  ∃ names found, IsTemplate patterns [] root names ∧ root.at? names = some found ∧
    r = Text.join "/" names ∧ outcomeOf o (Route.ofNames true (above ++ names)) r found = outcome

/-- A library of the templates of a directory: each is among the programs or among the failures, and once. -/
structure Library.IsOf (l : Library) (patterns above : List Text) (root : Entry) (o : Options) : Prop where
  programs : ∀ r program, (r, program) ∈ l.programs ↔ Becomes patterns above root o r (.ok program)
  failures : ∀ r e, (r, e) ∈ l.failures ↔ Becomes patterns above root o r (.error e)
  once : (l.programs.map Prod.fst ++ l.failures.map Prod.fst).Nodup

theorem exists_compileAll_eq (hroot : IsRoot d p above root) {routes : List Route}
    (hroutes : templates d p = .ok routes) (hsorted : ListsInOrder routes p.exclude root (Text.join "/")) :
    ∃ library, compileAll d p = .ok library ∧ library.IsOf p.exclude above root p.options := by
  have hbecomes : ∀ r outcome, r ∈ routes ∧ compileFile d p (Route.join [p.root, r]) = outcome ↔
      Becomes p.exclude above root p.options r outcome := by
    intro r outcome
    rw [hsorted.mem_iff]
    constructor
    · rintro ⟨⟨names, hnames, rfl⟩, houtcome⟩
      obtain ⟨found, hfound, _⟩ := hnames.leaf
      rw [compileFile_eq hroot hnames hfound] at houtcome
      exact ⟨names, found, hnames, hfound, rfl, houtcome⟩
    · rintro ⟨names, found, hnames, hfound, rfl, houtcome⟩
      rw [← compileFile_eq hroot hnames hfound] at houtcome
      exact ⟨⟨names, hnames, rfl⟩, houtcome⟩
  have hempty : (⟨[], []⟩ : Library).Records (fun r => compileFile d p (Route.join [p.root, r])) [] :=
    ⟨by simp, by simp, .nil⟩
  have hrecords := hempty.foldl routes
  rw [List.nil_append] at hrecords
  refine ⟨_, by rw [compileAll, hroutes]; rfl, ?_, ?_, ?_⟩
  · exact fun r program => (hrecords.programs r program).trans (hbecomes r (.ok program))
  · exact fun r e => (hrecords.failures r e).trans (hbecomes r (.error e))
  · refine hrecords.each.nodup_iff.mpr (hsorted.ordered.imp ?_)
    rintro s t hst rfl
    exact hst.asymm hst

end Root

/-! ### Projects -/

theorem exists_isRoot {d : Disk} (hd : d.IsSound) {r : Route} {o : Options} {p : Project}
    (hp : ofDirectory d r o = .ok p) :
    ∃ above root, IsRoot d p above root ∧ d.absolute r = Route.ofNames true above ∧ p.options = o ∧
      p.exclude = [] := by
  obtain ⟨above, habove, hplace⟩ := Disk.exists_absolute_eq hd.workplace r
  rw [ofDirectory, hplace] at hp
  split at hp
  · cases hp
  · rename_i root hfind
    obtain ⟨htop, hfound⟩ := (Disk.find_ofNames_eq_ok_iff habove).mp hfind
    split at hp
    · rename_i hdirectory
      obtain rfl := Except.ok.inj hp
      exact ⟨above, root, ⟨habove, rfl, htop, hfound, hdirectory, (hd.top.at? hfound).2⟩, hplace, rfl, rfl⟩
    · cases hp

theorem IsRoot.leaveOut {d : Disk} {p : Project} {above : List Text} {root : Entry} (h : IsRoot d p above root)
    (patterns : List Text) : IsRoot d (p.leaveOut patterns) above root :=
  ⟨h.names, h.place, h.top, h.found, h.directory, h.sound⟩

/-- A directory with templates, with some that are hidden and with some that are to be left out. -/
def sampleSite : Disk where
  top := .directory [("site", .directory [
    (".cache", .directory [("page.html", .file "<p></p>")]),
    ("broken.html", .file "<p title=\"\x7b\">"),
    ("notes.txt", .file "later"),
    ("old", .directory [("page.html", .file "<p></p>")]),
    ("parts", .directory [("draft.html", .file "<p>"), ("head.html", .file "<h1>2</h1>")])])]
  workplace := "/site"

def sampleProject : Project := ⟨"/site", .default, []⟩

def samplePatterns : List Text := ["old", "*/d*.html"]

end Project

end Stencil
