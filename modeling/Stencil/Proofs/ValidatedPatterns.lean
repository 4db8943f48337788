import Stencil.Command.Run
import Stencil.Proofs.Discovery

/-!
# Settings that were accepted do not fail later

The patterns of settings are tried with the empty name when the settings are read. They are used later, with the
routes of whatever stands below the directory of a project. Whether a pattern is malformed does not depend on the
name, so nothing new can come up then: a complaint during the search for templates is one that was, or would have
been, made about the same pattern when it was read.

`accepted_settings_discover` puts this together for documents that are accepted as settings, for every disk.
-/

namespace Stencil

open Files (Disk Entry Route)

namespace Settings

/-- A pattern passes the check if it can be matched with any name, whichever that is. -/
theorem checkPattern?_eq_none_iff (pattern name : Text) :
    checkPattern? pattern = none ↔ ∃ matched, Files.matchPattern pattern name = .ok matched := by
  constructor
  · exact fun hpattern => Project.exists_matchPattern_eq hpattern name
  · intro hname
    rw [← Files.Pattern.isOk_eq_true_iff, Files.matchPattern_isOk pattern name [], Files.Pattern.isOk_eq_true_iff] at hname
    obtain ⟨matched, hmatched⟩ := hname
    rw [checkPattern?, hmatched]

/-- A pattern that fails with some name fails the check, for the same reason. -/
theorem checkPattern?_of_matchPattern {pattern name : Text} {fault : Files.PatternFault}
    (hfault : Files.matchPattern pattern name = .error fault) : checkPattern? pattern = some ⟨pattern, fault⟩ := by
  have hread : (Files.matchPattern pattern []).isOk = false := by
    rw [Files.matchPattern_isOk pattern [] name, hfault]
    rfl
  obtain ⟨found, hfound⟩ := Files.Pattern.isOk_eq_false_iff.mp hread
  cases fault
  cases found
  rw [checkPattern?, hfound]

theorem check?_eq_none_iff {s : Settings} :
    s.check? = none ↔ ∀ pattern ∈ s.exclude, checkPattern? pattern = none :=
  List.findSome?_eq_none_iff

theorem ofText_eq_ok_iff {t : Text} {s : Settings} :
    ofText t = .ok s ↔ read t = .ok s ∧ ∀ pattern ∈ s.exclude, checkPattern? pattern = none := by
  rw [← check?_eq_none_iff, ofText]
  cases read t with
  | error e => exact ⟨by rintro ⟨⟩, by rintro ⟨⟨⟩, _⟩⟩
  | ok found =>
    dsimp only
    constructor
    · intro h
      split at h
      · cases h
      · rename_i hnone
        obtain rfl := Except.ok.inj h
        exact ⟨rfl, hnone⟩
    · rintro ⟨h, hnone⟩
      obtain rfl := Except.ok.inj h
      rw [hnone]

theorem load_of_read {d : Disk} {r : Route} {t : Text} {s : Settings}
    (hread : d.read (Route.join [r, fileName]) = .ok t) (hs : ofText t = .ok s) : load d r = .ok s := by
  rw [load, hread]
  dsimp only
  rw [hs]

end Settings

namespace Project

variable {patterns : List Text}

/-! ### Complaints -/

theorem eq_error_of_map {ε α β : Type} {f : α → β} {x : Except ε α} {e : ε} (h : x.map f = .error e) : x = .error e := by
  cases x with
  | ok a => cases h
  | error found => rw [Except.error.inj h]

/-- A complaint about one of some patterns that the check of this pattern makes as well. -/
structure IsComplaint (patterns : List Text) (b : Settings.BadPattern) : Prop where
  mem : b.pattern ∈ patterns
  checked : Settings.checkPattern? b.pattern = some b

theorem isComplaint_of_isLeftOut {r : Route} {b : Settings.BadPattern} (h : isLeftOut patterns r = .error b) :
    IsComplaint patterns b := by
  induction patterns with
  | nil => cases h
  | cons pattern rest ih =>
    rw [isLeftOut] at h
    split at h
    · rename_i fault hfault
      obtain rfl := Except.error.inj h
      exact ⟨List.mem_cons_self, Settings.checkPattern?_of_matchPattern hfault⟩
    · cases h
    · have hrest := ih h
      exact ⟨List.mem_cons_of_mem _ hrest.mem, hrest.checked⟩

theorem isComplaint_of_templatesOf_leaf {e : Entry} (he : e.isDirectory = false) {r : Route} {name : Text}
    {b : Settings.BadPattern} (h : templatesOf patterns r name e = .error b) : IsComplaint patterns b := by
  rw [templatesOf_leaf he] at h
  split at h
  · rename_i fault hleft
    obtain rfl := Except.error.inj h
    exact isComplaint_of_isLeftOut hleft
  · cases h

mutual

theorem isComplaint_of_templatesOf {r : Route} {name : Text} {b : Settings.BadPattern} :
    ∀ e : Entry, templatesOf patterns r name e = .error b → IsComplaint patterns b
  | .file _, h => isComplaint_of_templatesOf_leaf rfl h
  | .special _, h => isComplaint_of_templatesOf_leaf rfl h
  | .directory entries, h => by
    rw [templatesOf] at h
    split at h
    · rename_i e hleft
      obtain rfl := Except.error.inj h
      exact isComplaint_of_isLeftOut hleft
    · split at h
      · cases h
      · exact isComplaint_of_templatesAmong entries h

theorem isComplaint_of_templatesAmong {r : Route} {b : Settings.BadPattern} :
    ∀ entries : List (Text × Entry), templatesAmong patterns r entries = .error b → IsComplaint patterns b
  | [], h => by cases h
  | (name, e) :: rest, h => by
    rw [templatesAmong] at h
    split at h
    · rename_i found hfirst
      obtain rfl := Except.error.inj h
      exact isComplaint_of_templatesOf e hfirst
    · exact isComplaint_of_templatesAmong rest (eq_error_of_map h)

end

/-- Whatever is on a disk, the search for templates fails only with a complaint about a pattern of the project. -/
theorem isComplaint_of_templates {d : Disk} {p : Project} {b : Settings.BadPattern}
    (h : templates d p = .error b) : IsComplaint p.exclude b := by
  rw [templates] at h
  split at h
  · rename_i entries hroot
    exact isComplaint_of_templatesAmong entries (eq_error_of_map h)
  · cases h

/-- Without a pattern to complain about, the search succeeds. -/
theorem exists_discover_of_accepted {p : Project}
    (hpatterns : ∀ pattern ∈ p.exclude, Settings.checkPattern? pattern = none) (d : Disk) :
    ∃ files library, discover d p = .ok files ∧ compileAll d p = .ok library := by
  cases hfound : templates d p with
  | ok routes => exact ⟨_, _, by rw [discover, hfound]; rfl, by rw [compileAll, hfound]; rfl⟩
  | error b =>
    have hb := isComplaint_of_templates hfound
    cases (hpatterns b.pattern hb.mem).symm.trans hb.checked

theorem exclude_of_ofDirectory {d : Disk} {r : Route} {o : Options} {p : Project}
    (hp : ofDirectory d r o = .ok p) : p.exclude = [] := by
  rw [ofDirectory] at hp
  split at hp
  · cases hp
  · split at hp
    · obtain rfl := Except.ok.inj hp
      rfl
    · cases hp

/-! ### Commands -/

/-- No flag changes what is left out. -/
theorem exclude_choicesOf (fs : Command.Flags) (s : Settings) :
    ((Command.choicesOf fs).foldl Settings.choose s).exclude = s.exclude := by
  have hchoice : ∀ c ∈ Command.choicesOf fs, ∀ s : Settings, (s.choose c).exclude = s.exclude := by
    intro c hc s
    rw [Command.choicesOf, List.mem_append, List.mem_append] at hc
    simp only [Option.mem_toList, Option.map_eq_some_iff] at hc
    rcases hc with (⟨_, _, rfl⟩ | ⟨_, _, rfl⟩) | ⟨_, _, rfl⟩ <;> rfl
  generalize Command.choicesOf fs = cs at hchoice
  induction cs generalizing s with
  | nil => rfl
  | cons c rest ih =>
    obtain ⟨hc, hrest⟩ := List.forall_mem_cons.mp hchoice
    rw [List.foldl_cons, ih (s.choose c) hrest, hc]

theorem exclude_of_openProject {d : Disk} {fs : Command.Flags} {r : Route} {p : Project} {t : Text}
    {s chosen : Settings} (hread : d.read (Route.join [r, Settings.fileName]) = .ok t)
    (hs : Settings.ofText t = .ok s) (hopen : Command.openProject d fs r = .ok (p, chosen)) :
    p.exclude = s.exclude := by
  rw [Command.openProject, Settings.load_of_read hread hs] at hopen
  dsimp only at hopen
  split at hopen
  · cases hopen
  · rename_i opened hopened
    obtain ⟨rfl, rfl⟩ := Prod.mk.inj (Except.ok.inj hopen)
    rw [leaveOut, exclude_of_ofDirectory hopened, List.nil_append, exclude_choicesOf]

/-- Any name decides whether a pattern passes the check, so the patterns of a document that is accepted as settings
can be matched with every name. They never make the search for templates fail, on any disk and in any project they
are given to, and no command complains about them. -/
theorem accepted_settings_discover {t : Text} {s : Settings} (hs : Settings.ofText t = .ok s) :
    (∀ pattern name, Settings.checkPattern? pattern = none ↔
        ∃ matched, Files.matchPattern pattern name = .ok matched) ∧
      (∀ pattern ∈ s.exclude, ∀ name, ∃ matched, Files.matchPattern pattern name = .ok matched) ∧
      (∀ (d : Disk) (p : Project) (b : Settings.BadPattern),
        discover d (p.leaveOut s.exclude) = .error b → b.pattern ∈ p.exclude ∧ b.pattern ∉ s.exclude) ∧
      (∀ (d : Disk) (r : Route) (o : Options) (p : Project), ofDirectory d r o = .ok p →
        ∃ files library, discover d (p.leaveOut s.exclude) = .ok files ∧
          compileAll d (p.leaveOut s.exclude) = .ok library) ∧
      ∀ (d : Disk) (fs : Command.Flags) (r : Route) (p : Project) (chosen : Settings),
        d.read (Route.join [r, Settings.fileName]) = .ok t → Command.openProject d fs r = .ok (p, chosen) →
          ∀ b, .discover b ∉ (Command.compileProject d p).2 := by
  have hpatterns := (Settings.ofText_eq_ok_iff.mp hs).2
  refine ⟨Settings.checkPattern?_eq_none_iff, ?_, ?_, ?_, ?_⟩
  · intro pattern hpattern name
    exact (Settings.checkPattern?_eq_none_iff pattern name).mp (hpatterns pattern hpattern)
  · intro d p b hfailed
    have hb := isComplaint_of_templates (eq_error_of_map hfailed)
    have hnot : b.pattern ∉ s.exclude := by
      intro hmem
      cases (hpatterns b.pattern hmem).symm.trans hb.checked
    exact ⟨(List.mem_append.mp hb.mem).resolve_right hnot, hnot⟩
  · intro d r o p hp
    apply exists_discover_of_accepted
    rwa [leaveOut, exclude_of_ofDirectory hp, List.nil_append]
  · intro d fs r p chosen hread hopen b hb
    rw [← exclude_of_openProject hread hs hopen] at hpatterns
    obtain ⟨files, library, hfiles, hlibrary⟩ := exists_discover_of_accepted hpatterns d
    rw [Command.compileProject, hlibrary] at hb
    obtain ⟨failure, _, hfailure⟩ := List.mem_map.mp hb
    cases hfailure

/-- Settings with a class of characters, an escaped star and a star before a part that may stand in several places. -/
def patternSettings : Text := "exclude:\n  - old\n  - '[^a-c]*/d?*\\*.html'\n"

/-- The directory with templates, with a file of settings in it. -/
def settledSite : Disk where
  top := .directory [("site", .directory [
    ("idomc.yaml", .file patternSettings),
    ("old", .directory [("page.html", .file "<p></p>")]),
    ("parts", .directory [("draft*.html", .file "<p>"), ("head.html", .file "<h1>2</h1>")])])]
  workplace := "/site"

theorem patternSettings_discover :
    let s : Settings := ⟨false, [], Settings.usualOut, ["old", "[^a-c]*/d?*\\*.html"]⟩
    let p : Project := ⟨"/site", .default, []⟩
    Settings.ofText patternSettings = .ok s ∧ ofDirectory settledSite "." .default = .ok p ∧
      Files.matchPattern "[^a-c]*/d?*\\*.html" "parts/draft*.html" = .ok true ∧
      (∃ matched, Files.matchPattern "[^a-c]*/d?*\\*.html" "parts/head.html" = .ok matched) ∧
      (∃ files library, discover settledSite (p.leaveOut s.exclude) = .ok files ∧
        compileAll settledSite (p.leaveOut s.exclude) = .ok library) ∧
      ∃ opened chosen, Command.openProject settledSite .none "." = .ok (opened, chosen) ∧
        ∀ b, .discover b ∉ (Command.compileProject settledSite opened).2 := by
  intro s p
  have hs : Settings.ofText patternSettings = .ok s := by
    have hoption : (Settings.ofText patternSettings).toOption = some s := by decide +kernel
    revert hoption
    cases Settings.ofText patternSettings with
    | ok found => exact fun h => congrArg Except.ok (Option.some.inj h)
    | error e => rintro ⟨⟩
  obtain ⟨_, hmatched, _, hfound, hcommand⟩ := accepted_settings_discover hs
  have hp : ofDirectory settledSite "." .default = .ok p := rfl
  have hread : settledSite.read (Route.join [".", Settings.fileName]) = .ok patternSettings := rfl
  have hopen : Command.openProject settledSite .none "." = .ok (p.leaveOut s.exclude, s) := by
    rw [Command.openProject, Settings.load_of_read hread hs]
    rfl
  exact ⟨hs, hp, rfl, hmatched _ (List.mem_cons_of_mem _ List.mem_cons_self) _, hfound _ _ _ _ hp, _, _, hopen,
    hcommand _ _ _ _ _ hread hopen⟩

end Project

end Stencil
