import Stencil.Files.Disk
import Stencil.Proofs.FreeNames
import Stencil.Proofs.Words

/-!
# Trees of files and routes into them

A disk is a tree in which every directory has each of its names once, and each of them is a name: not empty, not
`.` or `..`, and without a slash. Disks start so and stay so whatever is written on them.

In such a tree a route from the top is as good as the list of the names it goes through. The list can be read off
the route, and looking for the route leads where the names lead.
-/

namespace Stencil.Files

/-! ### Names -/

/-- A name that an entry of a directory may have. -/
structure Route.IsName (name : Text) : Prop where
  nonempty : name ≠ []
  ne_here : name ≠ here
  ne_up : name ≠ up
  slashless : 0x2F ∉ name

theorem Route.IsName.not_stays {name : Text} (h : IsName name) : ¬ (name.isEmpty || name == here) = true := by
  simpa using ⟨h.nonempty, h.ne_here⟩

theorem Route.IsName.not_rises {name : Text} (h : IsName name) : ¬ (name == up) = true := by
  simpa using h.ne_up

namespace Entry

mutual

/-- Every directory in a tree has each of its names once, and they are names. -/
def IsSound : Entry → Prop
  | .file _ | .special _ => True
  | .directory entries => (Entries.names entries).Nodup ∧ SoundIn entries

/-- The entries of a directory have names, and what they are is sound. -/
def SoundIn : List (Text × Entry) → Prop
  | [] => True
  | (name, e) :: rest => Route.IsName name ∧ e.IsSound ∧ SoundIn rest

end

theorem soundIn_iff {entries : List (Text × Entry)} :
    SoundIn entries ↔ ∀ name e, (name, e) ∈ entries → Route.IsName name ∧ e.IsSound := by
  induction entries with
  | nil => simp [SoundIn]
  | cons entry rest ih =>
    obtain ⟨n, e⟩ := entry
    rw [SoundIn, ih]
    constructor
    · rintro ⟨hn, he, hrest⟩ name child hmem
      rcases List.mem_cons.mp hmem with heq | hmem
      · obtain ⟨rfl, rfl⟩ := Prod.mk.inj heq
        exact ⟨hn, he⟩
      · exact hrest name child hmem
    · intro h
      obtain ⟨hn, he⟩ := h n e List.mem_cons_self
      exact ⟨hn, he, fun name child hmem => h name child (List.mem_cons_of_mem _ hmem)⟩

/-- What the names lead to from an entry, one directory after the other. -/
def at? : Entry → List Text → Option Entry
  | e, [] => some e
  | .directory entries, name :: rest => (Entries.get? name entries).bind fun child => child.at? rest
  | _, _ :: _ => none

theorem at?_cons_of_not_isDirectory {e : Entry} (he : e.isDirectory = false) (name : Text) (names : List Text) :
    e.at? (name :: names) = none := by
  cases e with
  | directory entries => cases he
  | _ => rfl

theorem find_cons_of_not_isDirectory {e : Entry} (he : e.isDirectory = false) (above : List Entry) (name : Text)
    (names : List Text) : find above e (name :: names) = .error .notDirectory := by
  cases e with
  | directory entries => cases he
  | _ => rw [find.eq_def]

/-- Nothing stands in a tree but files and directories. -/
def IsPlain (e : Entry) : Prop := ∀ names reading, e.at? names ≠ some (.special reading)

/-- In a plain tree what is no directory is a file. -/
theorem IsPlain.exists_file_iff {e : Entry} (h : e.IsPlain) (names : List Text) :
    (∃ found, e.at? names = some found ∧ found.isDirectory = false) ↔ ∃ content, e.at? names = some (.file content) := by
  constructor
  · rintro ⟨found, hfound, hleaf⟩
    cases found with
    | file content => exact ⟨content, hfound⟩
    | directory entries => cases hleaf
    | special reading => exact absurd hfound (h names reading)
  · rintro ⟨content, hfound⟩
    exact ⟨_, hfound, rfl⟩

theorem at?_append (e : Entry) (names others : List Text) :
    e.at? (names ++ others) = (e.at? names).bind fun child => child.at? others := by
  induction names generalizing e with
  | nil => rw [List.nil_append, at?]; rfl
  | cons name names ih =>
    cases e with
    | directory entries =>
      rw [List.cons_append, at?, at?]
      cases Entries.get? name entries with
      | none => rfl
      | some child => exact ih child
    | _ => rfl

theorem IsSound.child {entries : List (Text × Entry)} (h : (Entry.directory entries).IsSound) {name : Text}
    {child : Entry} (hchild : Entries.get? name entries = some child) : Route.IsName name ∧ child.IsSound :=
  soundIn_iff.mp h.2 name child (Entries.mem_of_get? hchild)

/-- The names that lead anywhere in a sound tree are names, and what they lead to is sound. -/
theorem IsSound.at? {e found : Entry} (he : e.IsSound) {names : List Text} (hfound : e.at? names = some found) :
    (∀ name ∈ names, Route.IsName name) ∧ found.IsSound := by
  induction names generalizing e with
  | nil =>
    rw [Entry.at?] at hfound
    obtain rfl := Option.some.inj hfound
    exact ⟨by simp, he⟩
  | cons name names ih =>
    cases e with
    | directory entries =>
      rw [Entry.at?] at hfound
      obtain ⟨child, hchild, hfound⟩ := Option.bind_eq_some_iff.mp hfound
      obtain ⟨hname, hsound⟩ := he.child hchild
      obtain ⟨hnames, hfound⟩ := ih hsound hfound
      exact ⟨List.forall_mem_cons.mpr ⟨hname, hnames⟩, hfound⟩
    | _ => cases hfound

/-- Looking for an entry by names leads where the names lead. -/
theorem find_eq_ok_iff {above : List Entry} {e found : Entry} {names : List Text}
    (hnames : ∀ name ∈ names, Route.IsName name) : find above e names = .ok found ↔ e.at? names = some found := by
  induction names generalizing above e with
  | nil => rw [find, at?]; simp
  | cons name names ih =>
    obtain ⟨hname, hnames⟩ := List.forall_mem_cons.mp hnames
    cases e with
    | directory entries =>
      rw [find.eq_def, at?]
      dsimp only
      rw [if_neg hname.not_stays, if_neg hname.not_rises]
      cases Entries.get? name entries with
      | none => simp
      | some child => exact ih hnames
    | _ =>
      rw [find_cons_of_not_isDirectory rfl, at?_cons_of_not_isDirectory rfl]
      simp

end Entry

/-! ### Routes -/

theorem splitOn_append_sep (sep : UInt8) (s t : Text) :
    Text.splitOn sep (s ++ sep :: t) = Text.splitOn sep s ++ Text.splitOn sep t := by
  obtain ⟨first, others, ht⟩ := Text.exists_splitOn sep t
  induction s with
  | nil => rw [List.nil_append, Text.splitOn_cons ht, if_pos rfl, ht]; rfl
  | cons b s ih =>
    obtain ⟨part, parts, hs⟩ := Text.exists_splitOn sep s
    rw [hs, List.cons_append] at ih
    rw [List.cons_append, Text.splitOn_cons ih, Text.splitOn_cons hs]
    split <;> rfl

namespace Route

theorem splitOn_join_names {names : List Text} (hnames : ∀ name ∈ names, IsName name) (hne : names ≠ []) :
    Text.splitOn 0x2F (Text.join "/" names) = names :=
  Text.splitOn_join hne fun name hname => (hnames name hname).slashless

theorem join_names_ne_nil {names : List Text} (hnames : ∀ name ∈ names, IsName name) (hne : names ≠ []) :
    Text.join "/" names ≠ [] := by
  intro hempty
  have hsplit := splitOn_join_names hnames hne
  rw [hempty] at hsplit
  exact (hnames [] (hsplit ▸ List.mem_singleton_self _)).nonempty rfl

theorem enter_name {name : Text} (hname : IsName name) (absolute : Bool) (passed : List Text) :
    enter absolute passed name = name :: passed := by
  rw [enter.eq_def, if_neg hname.not_stays, if_neg hname.not_rises]

theorem foldl_enter {absolute : Bool} {names : List Text} (hnames : ∀ name ∈ names, IsName name) (passed : List Text) :
    names.foldl (enter absolute) passed = names.reverse ++ passed := by
  induction names generalizing passed with
  | nil => rfl
  | cons name names ih =>
    obtain ⟨hname, hnames⟩ := List.forall_mem_cons.mp hnames
    rw [List.foldl_cons, enter_name hname, ih hnames, List.reverse_cons, List.append_assoc]
    rfl

/-- The slash in front makes for an empty part. -/
theorem splitOn_ofNames {names : List Text} (hnames : ∀ name ∈ names, IsName name) :
    Text.splitOn 0x2F (ofNames true names) = [] :: if names.isEmpty then [[]] else names := by
  cases names with
  | nil => rfl
  | cons name names =>
    have hsplit := Text.splitOn_cons (splitOn_join_names hnames (List.cons_ne_nil _ _)) 0x2F
    rw [if_pos rfl] at hsplit
    exact hsplit

theorem foldl_enter_splitOn_ofNames {names : List Text} (hnames : ∀ name ∈ names, IsName name) :
    (Text.splitOn 0x2F (ofNames true names)).foldl (enter true) [] = names.reverse := by
  rw [splitOn_ofNames hnames]
  cases names with
  | nil => rfl
  | cons name names => exact (foldl_enter hnames []).trans (List.append_nil _)

/-- The names can be read off a route from the top. -/
theorem names_ofNames {names : List Text} (hnames : ∀ name ∈ names, IsName name) :
    Route.names (ofNames true names) = names := by
  have habsolute : isAbsolute (ofNames true names) = true := rfl
  rw [Route.names, habsolute, foldl_enter_splitOn_ofNames hnames, List.reverse_reverse]

theorem isName_enter {passed : List Text} (hpassed : ∀ name ∈ passed, IsName name) {name : Text}
    (hname : 0x2F ∉ name) : ∀ n ∈ enter true passed name, IsName n := by
  rw [enter.eq_def]
  split
  · exact hpassed
  · rename_i hstay
    simp only [Bool.or_eq_true, List.isEmpty_iff, beq_iff_eq, not_or] at hstay
    split
    · cases passed with
      | nil => simp
      | cons last passed =>
        obtain ⟨hlast, hpassed⟩ := List.forall_mem_cons.mp hpassed
        dsimp only
        rw [if_neg (by simpa using hlast.ne_up)]
        exact hpassed
    · rename_i hup
      exact List.forall_mem_cons.mpr ⟨⟨hstay.1, hstay.2, by simpa using hup, hname⟩, hpassed⟩

/-- A route from the top goes through names. -/
theorem isName_of_mem_names {r : Route} (hr : isAbsolute r = true) : ∀ name ∈ Route.names r, IsName name := by
  have hfold : ∀ (parts passed : List Text), (∀ part ∈ parts, 0x2F ∉ part) → (∀ name ∈ passed, IsName name) →
      ∀ name ∈ parts.foldl (enter true) passed, IsName name := by
    intro parts
    induction parts with
    | nil => exact fun passed _ hpassed => hpassed
    | cons part parts ih =>
      intro passed hparts hpassed
      obtain ⟨hpart, hparts⟩ := List.forall_mem_cons.mp hparts
      exact ih _ hparts (isName_enter hpassed hpart)
  intro name hname
  rw [Route.names, hr, List.mem_reverse] at hname
  exact hfold _ [] (fun part hpart => Text.not_mem_of_mem_splitOn hpart) (by simp) name hname

theorem clean_of_isAbsolute {r : Route} (hr : isAbsolute r = true) : clean r = ofNames true (Route.names r) := by
  rw [clean, hr]

/-- A route from the top and one behind it. -/
theorem join_ofNames {above names : List Text} (habove : ∀ name ∈ above, IsName name)
    (hnames : ∀ name ∈ names, IsName name) (hne : names ≠ []) :
    join [ofNames true above, Text.join "/" names] = ofNames true (above ++ names) := by
  have hroute := join_names_ne_nil hnames hne
  have hparts : [ofNames true above, Text.join "/" names].filter (fun r => !r.isEmpty) =
      [ofNames true above, Text.join "/" names] := by
    simp [hroute, ofNames]
  have htext : Text.join "/" [ofNames true above, Text.join "/" names] =
      ofNames true above ++ 0x2F :: Text.join "/" names := by
    rw [Text.join, Text.join, List.append_assoc]
    · rfl
    · simp
  have habsolute : isAbsolute (ofNames true above ++ 0x2F :: Text.join "/" names) = true := rfl
  rw [join, hparts, if_neg (by simp), htext, clean_of_isAbsolute habsolute, Route.names, habsolute,
    splitOn_append_sep, splitOn_join_names hnames hne, List.foldl_append, foldl_enter_splitOn_ofNames habove,
    foldl_enter hnames, List.reverse_append, List.reverse_reverse, List.reverse_reverse]

theorem dropCommon_append (above names : List Text) : dropCommon above (above ++ names) = ([], names) := by
  induction above with
  | nil => cases names <;> rfl
  | cons name above ih => rw [List.cons_append, dropCommon, if_pos rfl, ih]

/-- The route from a directory to what is below it. -/
theorem relative?_ofNames {above names : List Text} (habove : ∀ name ∈ above, IsName name)
    (hnames : ∀ name ∈ names, IsName name) (hne : names ≠ []) :
    relative? (ofNames true above) (ofNames true (above ++ names)) = some (Text.join "/" names) := by
  have hall : ∀ name ∈ above ++ names, IsName name := List.forall_mem_append.mpr ⟨habove, hnames⟩
  rw [relative?, names_ofNames habove, names_ofNames hall, dropCommon_append]
  have hroute : ofNames false names = Text.join "/" names := by
    rw [ofNames, if_neg (by decide), if_neg (by simpa using hne)]
  exact congrArg some hroute

end Route

namespace Disk

variable {d : Disk}

/-- The route from the top that a route stands for goes through names. -/
theorem exists_absolute_eq (hd : Route.isAbsolute d.workplace = true) (r : Route) :
    ∃ names, (∀ name ∈ names, Route.IsName name) ∧ d.absolute r = Route.ofNames true names := by
  have hclean : ∀ r : Route, Route.isAbsolute r = true →
      ∃ names, (∀ name ∈ names, Route.IsName name) ∧ Route.clean r = Route.ofNames true names :=
    fun r hr => ⟨_, Route.isName_of_mem_names hr, Route.clean_of_isAbsolute hr⟩
  rw [absolute]
  split
  · rename_i hr
    exact hclean r hr
  · -- The working directory stands in front, so the two together lead from the top as well.
    cases hworkplace : d.workplace with
    | nil =>
      rw [hworkplace] at hd
      cases hd
    | cons b rest =>
      rw [hworkplace] at hd
      cases r with
      | nil => exact hclean (b :: rest) hd
      | cons c r => exact hclean (Text.join "/" [b :: rest, c :: r]) hd

theorem find_ofNames_eq {names : List Text} (hnames : ∀ name ∈ names, Route.IsName name) :
    d.find (Route.ofNames true names) = d.top.find [] ([] :: if names.isEmpty then [[]] else names) := by
  rw [find, if_neg (by simp [Route.ofNames]), Route.splitOn_ofNames hnames]
  rfl

/-- Looking for a route from the top leads where its names lead. -/
theorem find_ofNames_eq_ok_iff {names : List Text} (hnames : ∀ name ∈ names, Route.IsName name) {found : Entry} :
    d.find (Route.ofNames true names) = .ok found ↔
      d.top.isDirectory = true ∧ d.top.at? names = some found := by
  rw [find_ofNames_eq hnames]
  cases d.top with
  | directory entries =>
    have hstay : Entry.find [] (.directory entries) ([] :: if names.isEmpty then [[]] else names) =
        Entry.find [] (.directory entries) names := by
      cases names <;> rfl
    rw [hstay, Entry.find_eq_ok_iff hnames]
    simp [Entry.isDirectory]
  | _ =>
    rw [Entry.find_cons_of_not_isDirectory rfl]
    simp [Entry.isDirectory]

end Disk

/-! ### What is written on a disk -/

namespace Entry

theorem soundIn_set {entries : List (Text × Entry)} (hentries : SoundIn entries) {name : Text}
    (hname : Route.IsName name) {child : Entry} (hchild : child.IsSound) :
    SoundIn (Entries.set name child entries) := by
  induction entries with
  | nil => exact ⟨hname, hchild, trivial⟩
  | cons entry rest ih =>
    obtain ⟨n, e⟩ := entry
    obtain ⟨hn, he, hrest⟩ := hentries
    rw [Entries.set]
    split
    · exact ⟨hn, hchild, hrest⟩
    · exact ⟨hn, he, ih hrest⟩

/-- A sound directory stays sound when an entry is put into it. -/
theorem IsSound.set {entries : List (Text × Entry)} (h : (Entry.directory entries).IsSound) {name : Text}
    (hname : Route.IsName name) {child : Entry} (hchild : child.IsSound) :
    (Entry.directory (Entries.set name child entries)).IsSound :=
  ⟨Entries.nodup_names_set h.1 name child, soundIn_set h.2 hname hchild⟩

theorem isSound_directory_nil : (Entry.directory []).IsSound := ⟨List.nodup_nil, trivial⟩

theorem IsSound.makeDirectories {e made : Entry} (he : e.IsSound) {passed names : List Text}
    (hnames : ∀ name ∈ names, Route.IsName name) (hmade : e.makeDirectories passed names = .ok made) :
    made.IsSound := by
  induction names generalizing e made passed with
  | nil =>
    rw [Entry.makeDirectories] at hmade
    split at hmade
    · obtain rfl := Except.ok.inj hmade
      exact he
    · cases hmade
  | cons name names ih =>
    obtain ⟨hname, hnames⟩ := List.forall_mem_cons.mp hnames
    cases e with
    | file content => cases hmade
    | special reading => cases hmade
    | directory entries =>
      have hchild : ((Entries.get? name entries).getD (.directory [])).IsSound := by
        cases hget : Entries.get? name entries with
        | none => exact isSound_directory_nil
        | some child => exact (he.child hget).2
      rw [Entry.makeDirectories] at hmade
      cases hrest : Entry.makeDirectories (passed ++ [name]) ((Entries.get? name entries).getD (.directory []))
          names with
      | error e =>
        rw [hrest] at hmade
        cases hmade
      | ok child =>
        rw [hrest] at hmade
        obtain rfl := Except.ok.inj hmade
        exact he.set hname (ih hchild hnames hrest)

theorem IsSound.change {e changed : Entry} (he : e.IsSound) {new : Option Entry → Except Trouble Entry}
    (hnew : ∀ old made, new old = .ok made → made.IsSound) {names : List Text}
    (hnames : ∀ name ∈ names, Route.IsName name) (hchanged : e.change new names = .ok changed) :
    changed.IsSound := by
  induction names generalizing e changed with
  | nil =>
    rw [Entry.change] at hchanged
    exact hnew _ _ hchanged
  | cons name names ih =>
    obtain ⟨hname, hnames⟩ := List.forall_mem_cons.mp hnames
    cases e with
    | file old => cases hchanged
    | special reading => cases hchanged
    | directory entries =>
      rw [Entry.change] at hchanged
      split at hchanged
      · rename_i child hget
        cases hrest : Entry.change new child names with
        | error e =>
          rw [hrest] at hchanged
          cases hchanged
        | ok child =>
          rw [hrest] at hchanged
          obtain rfl := Except.ok.inj hchanged
          exact he.set hname (ih (he.child hget).2 hnames hrest)
      · split at hchanged
        · cases hmade : new none with
          | error e =>
            rw [hmade] at hchanged
            cases hchanged
          | ok child =>
            rw [hmade] at hchanged
            obtain rfl := Except.ok.inj hchanged
            exact he.set hname (hnew _ _ hmade)
        · cases hchanged

theorem isSound_written {content : Text} {old : Option Entry} {made : Entry} (h : written content old = .ok made) :
    made.IsSound := by
  rw [written.eq_def] at h
  split at h
  · obtain rfl := Except.ok.inj h
    trivial
  · obtain rfl := Except.ok.inj h
    trivial
  · cases h
  · obtain rfl := Except.ok.inj h
    trivial
  · cases h

end Entry

namespace Disk

variable {d : Disk}

/-- A disk with a sound tree, and with work done in a directory that is known by a route from the top. -/
structure IsSound (d : Disk) : Prop where
  top : d.top.IsSound
  workplace : Route.isAbsolute d.workplace = true

theorem isSound_empty {workplace : Route} (hworkplace : Route.isAbsolute workplace = true) :
    (Disk.empty workplace).IsSound := by
  refine ⟨?_, hworkplace⟩
  rw [Disk.empty]
  cases hmade : Entry.makeDirectories [] (.directory []) (Route.names workplace) with
  | error names => exact Entry.isSound_directory_nil
  | ok top => exact Entry.isSound_directory_nil.makeDirectories (Route.isName_of_mem_names hworkplace) hmade

theorem IsSound.isName_absolute (hd : d.IsSound) (r : Route) :
    ∀ name ∈ Route.names (d.absolute r), Route.IsName name := by
  obtain ⟨names, hnames, hroute⟩ := exists_absolute_eq hd.workplace r
  rw [hroute, Route.names_ofNames hnames]
  exact hnames

theorem IsSound.makeDirectories {made : Disk} (hd : d.IsSound) {r : Route} (hmade : d.makeDirectories r = .ok made) :
    made.IsSound := by
  rw [Disk.makeDirectories] at hmade
  split at hmade
  · rename_i top htop
    obtain rfl := Except.ok.inj hmade
    exact ⟨hd.top.makeDirectories (hd.isName_absolute r) htop, hd.workplace⟩
  · cases hmade

theorem IsSound.write {written : Disk} (hd : d.IsSound) {r : Route} {content : Text}
    (hwritten : d.write r content = .ok written) : written.IsSound := by
  rw [Disk.write, Disk.change] at hwritten
  split at hwritten
  · rename_i top htop
    obtain rfl := Except.ok.inj hwritten
    have htop := hd.top.change (fun _ _ => Entry.isSound_written) (hd.isName_absolute r) htop
    exact ⟨htop, hd.workplace⟩
  · cases hwritten

end Disk

end Stencil.Files
