import ObjectLang.Proofs.Imports.Search
set_option autoImplicit false

/-!
# Files behind the files they import

What a search comes to, in the words of the import lines alone. The files that it lists are those that
the entry leads to, each once and behind the files that it imports, unless those import it in turn.
Where it fails, it fails at the missing file with the first route: routes are compared turn by turn,
and one that takes an earlier import line goes first.
-/

namespace ObjectLang.Imports

def Needs (files : NameMap String) (path other : String) : Prop :=
  other ∈ importsOf files path

/-- Import lines lead from `path` to `other`, if only because they are the same. -/
abbrev Reaches (files : NameMap String) : String → String → Prop :=
  Relation.ReflTransGen (Needs files)

def texts (files : NameMap String) (entry : String) : List String :=
  entry :: (files.names ++ files.names.flatMap (importsOf files))

/-- No two texts stand for one path. -/
def Unambiguous (files : NameMap String) (entry : String) : Prop :=
  ∀ p ∈ texts files entry, ∀ q ∈ texts files entry, components p = components q → p = q

/-- Every file stands behind those that it imports, apart from those that import it in turn. -/
def Sorted (files : NameMap String) (listed : List String) : Prop :=
  ∀ before path after, listed = before ++ path :: after →
    ∀ other, Needs files path other →
      other ∈ before ∨ Relation.TransGen (Needs files) other path

/-- The files that the entry leads to are listed with their texts, the entry last, and every file
    behind those that it imports, apart from those that import it in turn. -/
structure Ordered (files : NameMap String) (entry : String) (listed : List SourceFile) : Prop where
  reached : ∀ path, path ∈ listed.map SourceFile.path ↔ Reaches files entry path
  text : ∀ file ∈ listed, files.find? file.path = some file.text
  last : (listed.map SourceFile.path).getLast? = some entry
  sorted : Sorted files (listed.map SourceFile.path)

/-- The paths met on a route: each turn takes one of the paths at hand, by its number, and puts the
    imports of its file at hand. -/
def route (files : NameMap String) : List String → List Nat → Option (List String)
  | _, [] => some []
  | paths, n :: turns =>
    paths[n]?.bind fun path => (route files (importsOf files path) turns).map (path :: ·)

/-- The turns lead from the paths at hand to `path`, and to no path twice. -/
def Leads (files : NameMap String) (paths : List String) (turns : List Nat) (path : String) : Prop :=
  ∃ met, route files paths turns = some met ∧ met.Nodup ∧ met.getLast? = some path

/-- Of the routes that lead from `entry` to a missing file, the one to `path` comes first. -/
def FirstMissing (files : NameMap String) (entry path : String) : Prop :=
  files.find? path = none ∧ ∃ turns, Leads files [entry] turns path ∧
    ∀ other others, Leads files [entry] others other → files.find? other = none → ¬others < turns

variable {files : NameMap String} {entry : String}

theorem entry_mem_texts (files : NameMap String) (entry : String) : entry ∈ texts files entry :=
  List.mem_cons_self

theorem importsOf_mem_texts {path other : String} (h : Needs files path other) (entry : String) :
    other ∈ texts files entry := by
  unfold Needs importsOf at h
  cases found : files.find? path with
  | none => simp [found] at h
  | some text =>
    refine List.mem_cons_of_mem _ (List.mem_append_right _ (List.mem_flatMap.2 ?_))
    exact ⟨path, mem_names_of_find? found, by simpa [importsOf, found] using h⟩

namespace Search

def paths (s : Search) : List String := s.sources.map SourceFile.path

theorem paths_add (s : Search) (path text : String) :
    (s.add ⟨path, text⟩).paths = s.paths ++ [path] := by
  simp [paths, add]

theorem hasSeen_add (s : Search) (file : SourceFile) (path : String) :
    (s.add file).hasSeen path = s.hasSeen path := rfl

theorem hasSeen_of_components {s : Search} {p q : String} (h : components p = components q) :
    s.hasSeen p = s.hasSeen q := by
  simp [hasSeen, h]

theorem unseen_of_see {s : Search} {path other : String}
    (h : (s.see path).hasSeen other = false) : s.hasSeen other = false := by
  rw [hasSeen_see, Bool.or_eq_false_iff] at h
  exact h.2

end Search

namespace Visits

theorem seen_mono {paths : List String} {s t : Search} (h : Visits files paths s (.ok t))
    {path : String} (seen : s.hasSeen path = true) : t.hasSeen path = true := by
  generalize hr : Except.ok t = r at h
  induction h generalizing t with
  | nil => exact Except.ok.inj hr ▸ seen
  | met _ _ ih => exact ih seen hr
  | missing | broken => cases hr
  | @file path text rest s u r unseen found inside more ih ih_more =>
    have kept : u.hasSeen _ = true := ih (by simp [Search.hasSeen_see, seen]) rfl
    exact ih_more kept hr

theorem unseen {paths : List String} {s t : Search} (h : Visits files paths s (.ok t))
    {path : String} (unseen : t.hasSeen path = false) : s.hasSeen path = false :=
  Bool.eq_false_iff.2 fun seen => Bool.eq_false_iff.1 unseen (h.seen_mono seen)

theorem all_seen {paths : List String} {s t : Search} (h : Visits files paths s (.ok t)) :
    ∀ path ∈ paths, t.hasSeen path = true := by
  generalize hr : Except.ok t = r at h
  induction h generalizing t with
  | nil => simp
  | met seen more ih =>
    subst hr
    exact List.forall_mem_cons.2 ⟨more.seen_mono seen, ih rfl⟩
  | missing | broken => cases hr
  | file unseen found inside more ih ih_more =>
    subst hr
    refine List.forall_mem_cons.2 ⟨more.seen_mono ?_, ih_more rfl⟩
    exact inside.seen_mono (Search.hasSeen_see_self _ _)

/-- A search lists paths that were not met before, none of them twice. -/
theorem added {paths : List String} {s t : Search} (h : Visits files paths s (.ok t)) :
    ∃ new, t.paths = s.paths ++ new ∧ (new.map components).Nodup ∧
      ∀ path ∈ new, s.hasSeen path = false ∧ t.hasSeen path = true := by
  generalize hr : Except.ok t = r at h
  induction h generalizing t with
  | nil => exact ⟨[], by simp [Except.ok.inj hr], .nil, by simp⟩
  | met _ _ ih => exact ih hr
  | missing | broken => cases hr
  | @file path text rest s u r unseen found inside more ih ih_more =>
    subst hr
    obtain ⟨deep, listed, once, fresh⟩ := ih rfl
    obtain ⟨wide, listed', once', fresh'⟩ := ih_more rfl
    rw [Search.paths_add, listed] at listed'
    have here : u.hasSeen path = true := inside.seen_mono (Search.hasSeen_see_self _ _)
    refine ⟨deep ++ path :: wide, ?_, ?_, ?_⟩
    · rw [listed']
      simp [Search.see, Search.paths]
    · simp only [List.map_append, List.map_cons, List.nodup_append, List.nodup_cons, List.mem_cons,
        List.mem_map]
      refine ⟨once, ⟨?_, once'⟩, ?_⟩
      · rintro ⟨q, mem, same⟩
        have := (fresh' q mem).1
        rw [Search.hasSeen_add, Search.hasSeen_of_components same, here] at this
        cases this
      · rintro _ ⟨p, mem, rfl⟩ _ (rfl | ⟨q, mem', rfl⟩) same
        · have := (fresh p mem).1
          simp [Search.hasSeen_see, same] at this
        · have met := (fresh p mem).2
          have unmet := (fresh' q mem').1
          rw [Search.hasSeen_add, ← Search.hasSeen_of_components same, met] at unmet
          cases unmet
    · intro q mem
      rcases List.mem_append.1 mem with mem | mem
      · obtain ⟨unmet, met⟩ := fresh q mem
        exact ⟨Search.unseen_of_see unmet, more.seen_mono met⟩
      · rcases List.mem_cons.1 mem with rfl | mem
        · exact ⟨unseen, more.seen_mono here⟩
        · obtain ⟨unmet, met⟩ := fresh' q mem
          exact ⟨Search.unseen_of_see (inside.unseen unmet), met⟩

end Visits

/-- A path that is searched for while the files on the stack are open. The entry leads to it, and so
    does every open file. -/
structure Due (files : NameMap String) (entry : String) (stack : List String) (path : String) :
    Prop where
  text : path ∈ texts files entry
  reached : Reaches files entry path
  above : ∀ upper ∈ stack, Relation.TransGen (Needs files) upper path

/-- What is known while the files on the stack are open: these and the listed ones were met, and the
    imports of the listed ones too. -/
structure Sound (files : NameMap String) (entry : String) (stack : List String) (s : Search) :
    Prop where
  seen : ∀ path ∈ texts files entry, s.hasSeen path = true ↔ path ∈ s.paths ∨ path ∈ stack
  listed : ∀ file ∈ s.sources, files.find? file.path = some file.text ∧
    Reaches files entry file.path ∧ ∀ other, Needs files file.path other → s.hasSeen other = true
  sorted : Sorted files s.paths

theorem sound_nil : Sound files entry [] {} where
  seen := by simp [Search.hasSeen, Search.paths]
  listed := by simp
  sorted before path after h := by simp [Search.paths] at h

theorem Due.imports {stack : List String} {path other : String} (h : Due files entry stack path)
    (needs : Needs files path other) : Due files entry (path :: stack) other where
  text := importsOf_mem_texts needs entry
  reached := h.reached.tail needs
  above := List.forall_mem_cons.2 ⟨.single needs, fun upper mem => (h.above upper mem).tail needs⟩

theorem Due.targets {stack : List String} {path text : String} (h : Due files entry stack path)
    (found : files.find? path = some text) :
    ∀ other ∈ targets path text, Due files entry (path :: stack) other := fun _ mem =>
  h.imports (by rwa [Needs, importsOf_eq found])

theorem Sound.see (plain : Unambiguous files entry) {stack : List String} {s : Search}
    (h : Sound files entry stack s) {path : String} (due : Due files entry stack path) :
    Sound files entry (path :: stack) (s.see path) where
  seen other mem := by
    have same : components other = components path ↔ other = path :=
      ⟨plain other mem path due.text, congrArg components⟩
    rw [Search.hasSeen_see, Bool.or_eq_true, beq_iff_eq, same, h.seen other mem, List.mem_cons]
    exact or_left_comm
  listed file mem := by
    obtain ⟨found, reached, needs⟩ := h.listed file mem
    exact ⟨found, reached, fun other need => by simp [Search.hasSeen_see, needs other need]⟩
  sorted := h.sorted

theorem Sorted.concat {listed : List String} (h : Sorted files listed) {path : String}
    (last : ∀ other, Needs files path other →
      other ∈ listed ∨ Relation.TransGen (Needs files) other path) :
    Sorted files (listed ++ [path]) := by
  intro before here after split other needs
  rcases List.eq_nil_or_concat after with rfl | ⟨after, end_, rfl⟩
  · obtain ⟨rfl, rfl⟩ := List.append_singleton_inj.1 split
    exact last other needs
  · rw [List.concat_eq_append, ← List.cons_append, ← List.append_assoc] at split
    obtain ⟨rfl, -⟩ := List.append_singleton_inj.1 split
    exact h before here after rfl other needs

theorem Sound.add {stack : List String} {s : Search} {path text : String}
    (h : Sound files entry (path :: stack) s) (due : Due files entry stack path)
    (found : files.find? path = some text) (needs : ∀ other ∈ targets path text, s.hasSeen other) :
    Sound files entry stack (s.add ⟨path, text⟩) where
  seen other mem := by
    rw [Search.hasSeen_add, Search.paths_add, h.seen other mem]
    simp only [List.mem_append, List.mem_cons, List.not_mem_nil, or_false, or_assoc]
  listed file mem := by
    rcases List.mem_append.1 mem with mem | mem
    · exact h.listed file mem
    · obtain rfl := List.mem_singleton.1 mem
      exact ⟨found, due.reached, fun other need => needs other (importsOf_eq found ▸ need)⟩
  sorted := by
    rw [Search.paths_add]
    refine h.sorted.concat fun other need => ?_
    have met := (h.seen other (importsOf_mem_texts need entry)).1 (needs other (importsOf_eq found ▸ need))
    rcases met with listed | stacked
    · exact .inl listed
    · rcases List.mem_cons.1 stacked with rfl | upper
      · exact .inr (.single need)
      · exact .inr (due.above other upper)

theorem Visits.sound (plain : Unambiguous files entry) {paths : List String} {s t : Search}
    (h : Visits files paths s (.ok t)) {stack : List String} (start : Sound files entry stack s)
    (due : ∀ path ∈ paths, Due files entry stack path) : Sound files entry stack t := by
  generalize hr : Except.ok t = r at h
  induction h generalizing t stack with
  | nil => exact Except.ok.inj hr ▸ start
  | met _ _ ih => exact ih start (List.forall_mem_cons.1 due).2 hr
  | missing | broken => cases hr
  | @file path text rest s u r unseen found inside more ih ih_more =>
    obtain ⟨here, later⟩ := List.forall_mem_cons.1 due
    have opened := ih (start.see plain here) (here.targets found) rfl
    exact ih_more (opened.add here found inside.all_seen) later hr

theorem route_zero (path : String) (rest : List String) (turns : List Nat) :
    route files (path :: rest) (0 :: turns) =
      (route files (importsOf files path) turns).map (path :: ·) := rfl

/-- A route that keeps clear of the open files comes, from where a search has been, to files only. -/
theorem Sound.files_on_route {stack : List String} {s : Search} (h : Sound files entry stack s)
    {paths : List String} (texts_ : ∀ path ∈ paths, path ∈ texts files entry)
    (seen : ∀ path ∈ paths, s.hasSeen path = true) {turns : List Nat} {met : List String}
    (leads : route files paths turns = some met) (clear : ∀ path ∈ met, path ∉ stack) :
    ∀ path ∈ met, files.find? path ≠ none := by
  induction turns generalizing paths met with
  | nil =>
    obtain rfl := Option.some.inj leads
    simp
  | cons n turns ih =>
    obtain ⟨path, here, leads⟩ := Option.bind_eq_some_iff.1 leads
    obtain ⟨inner, onward, rfl⟩ := Option.map_eq_some_iff.1 leads
    obtain ⟨off, clear'⟩ := List.forall_mem_cons.1 clear
    have mem := List.mem_of_getElem? here
    have listed := ((h.seen path (texts_ path mem)).1 (seen path mem)).resolve_right off
    obtain ⟨file, added, rfl⟩ := List.mem_map.1 listed
    obtain ⟨found, -, needs⟩ := h.listed file added
    refine List.forall_mem_cons.2 ⟨by simp [found], ih ?_ needs onward clear'⟩
    exact fun other need => importsOf_mem_texts need entry

/-- Of the routes from the paths at hand that keep clear of the open files, the first to a missing
    file leads to `lost`, through unmet paths. -/
def Lost (files : NameMap String) (stack : List String) (s : Search) (paths : List String)
    (lost : String) : Prop :=
  files.find? lost = none ∧ ∃ turns met, route files paths turns = some met ∧ met.Nodup ∧
    met.getLast? = some lost ∧ (∀ path ∈ met, s.hasSeen path = false) ∧
    ∀ others met' other, route files paths others = some met' → met'.Nodup →
      (∀ path ∈ met', path ∉ stack) → met'.getLast? = some other → files.find? other = none →
      ¬others < turns

theorem Lost.behind {stack rest : List String} {s t : Search} {path lost : String}
    (h : Lost files stack t rest lost) (known : Sound files entry stack t)
    (text : path ∈ texts files entry) (seen : t.hasSeen path = true)
    (unseen : ∀ other, t.hasSeen other = false → s.hasSeen other = false) :
    Lost files stack s (path :: rest) lost := by
  obtain ⟨missing, turns, met, leads, once, last, unmet, first⟩ := h
  cases turns with
  | nil =>
    obtain rfl := Option.some.inj leads
    simp at last
  | cons n turns =>
    refine ⟨missing, (n + 1) :: turns, met, leads, once, last, fun p mem => unseen p (unmet p mem), ?_⟩
    intro others met' other leads' once' clear last' missing' less
    match others, leads' with
    | [], leads' =>
      obtain rfl := Option.some.inj leads'
      simp at last'
    | 0 :: others, leads' =>
      -- everything behind the path was met before, and no file was missing
      have alone : route files [path] (0 :: others) = some met' := leads'
      have there := known.files_on_route (by simpa using text) (by simpa using seen) alone clear
      exact there other (List.mem_of_getLast? last') missing'
    | (m + 1) :: others, leads' =>
      refine first (m :: others) met' other leads' once' clear last' missing' ?_
      simpa [List.cons_lt_cons_iff] using less

theorem Lost.here {stack rest : List String} {s : Search} {path : String}
    (unseen : s.hasSeen path = false) (missing : files.find? path = none) :
    Lost files stack s (path :: rest) path := by
  refine ⟨missing, [0], [path], rfl, by simp, rfl, by simpa using unseen, ?_⟩
  intro others met' other leads' _ _ last' _ less
  cases others with
  | nil =>
    obtain rfl := Option.some.inj leads'
    simp at last'
  | cons m others => simp [List.cons_lt_cons_iff] at less

theorem Lost.inside {stack rest : List String} {s : Search} {path text lost : String}
    (h : Lost files (path :: stack) (s.see path) (importsOf files path) lost)
    (unseen : s.hasSeen path = false) (found : files.find? path = some text) :
    Lost files stack s (path :: rest) lost := by
  obtain ⟨missing, turns, met, leads, once, last, unmet, first⟩ := h
  have fresh : path ∉ met := fun mem => by
    simpa [Search.hasSeen_see_self] using unmet path mem
  refine ⟨missing, 0 :: turns, path :: met, by rw [route_zero, leads]; rfl,
    List.nodup_cons.2 ⟨fresh, once⟩, by simp [List.getLast?_cons, last], ?_, ?_⟩
  · exact List.forall_mem_cons.2 ⟨unseen, fun p mem => Search.unseen_of_see (unmet p mem)⟩
  · intro others met' other leads' once' clear last' missing' less
    match others, leads' with
    | [], leads' =>
      obtain rfl := Option.some.inj leads'
      simp at last'
    | (m + 1) :: others, _ => simp [List.cons_lt_cons_iff] at less
    | 0 :: others, leads' =>
      rw [route_zero] at leads'
      obtain ⟨inner, onward, rfl⟩ := Option.map_eq_some_iff.1 leads'
      obtain ⟨apart, once'⟩ := List.nodup_cons.1 once'
      have clear' : ∀ p ∈ inner, p ∉ path :: stack := by
        rintro p mem stacked
        rcases List.mem_cons.1 stacked with rfl | stacked
        · exact apart mem
        · exact clear p (List.mem_cons_of_mem _ mem) stacked
      rcases List.eq_nil_or_concat inner with rfl | ⟨front, end_, rfl⟩
      · -- the path itself has a file
        obtain rfl : path = other := by simpa using last'
        simp [found] at missing'
      · refine first others _ other onward once' clear' ?_ missing' (by simpa using less)
        simpa [List.getLast?_cons] using last'

/-- A search that fails names the end of the first route to a missing file. -/
theorem Visits.lost (plain : Unambiguous files entry) {paths stack : List String} {s : Search}
    {path : String} (h : Visits files paths s (.error path)) (start : Sound files entry stack s)
    (due : ∀ path ∈ paths, Due files entry stack path) : Lost files stack s paths path := by
  generalize hr : Except.error path = r at h
  induction h generalizing stack with
  | nil => cases hr
  | met seen _ ih =>
    obtain ⟨here, later⟩ := List.forall_mem_cons.1 due
    exact (ih start later hr).behind start here.text seen fun _ => id
  | missing unseen missing =>
    obtain rfl := Except.error.inj hr
    exact .here unseen missing
  | @broken path text _ rest s unseen found inside ih =>
    have here := due path List.mem_cons_self
    have below := ih (start.see plain here) (here.targets found) hr
    exact Lost.inside (by rwa [importsOf_eq found]) unseen found
  | @file path text rest s t r unseen found inside more ih ih_more =>
    subst hr
    obtain ⟨here, later⟩ := List.forall_mem_cons.1 due
    have closed := (inside.sound plain (start.see plain here) (here.targets found)).add here found
      inside.all_seen
    refine (ih_more closed later rfl).behind closed here.text ?_ ?_
    · exact inside.seen_mono (Search.hasSeen_see_self _ _)
    · exact fun other unmet => Search.unseen_of_see (inside.unseen unmet)

theorem due_entry (files : NameMap String) (entry : String) :
    ∀ path ∈ [entry], Due files entry [] path := by
  rintro path mem
  obtain rfl := List.mem_singleton.1 mem
  exact ⟨entry_mem_texts files path, .refl, by simp⟩

/-- A search without open files has listed all that the entry leads to. -/
theorem Sound.listed_of_reaches {s : Search} (h : Sound files entry [] s)
    (seen : s.hasSeen entry = true) {path : String} (reaches : Reaches files entry path) :
    path ∈ s.paths := by
  have listed : ∀ path ∈ texts files entry, s.hasSeen path = true → path ∈ s.paths :=
    fun path mem met => ((h.seen path mem).1 met).resolve_right List.not_mem_nil
  induction reaches with
  | refl => exact listed entry (entry_mem_texts files entry) seen
  | tail _ needs ih =>
    obtain ⟨file, mem, rfl⟩ := List.mem_map.1 ih
    exact listed _ (importsOf_mem_texts needs entry) ((h.listed file mem).2.2 _ needs)

theorem Visits.entry_last {s : Search} (h : Visits files [entry] {} (.ok s)) :
    s.paths.getLast? = some entry := by
  cases h with
  | met seen => cases seen
  | @file path text rest s t r unseen found inside more =>
    cases more
    rw [Search.paths_add, List.getLast?_concat]

theorem order_eq {r : Except String Search} (h : Visits files [entry] {} r) :
    order files entry = r.map Search.sources := by
  rw [← (visits_iff files entry r).1 h, order]
  cases visitFile files entry {} <;> rfl

/-- The search for an entry ends, in one way only, and lists no path twice. Where no two texts stand
    for one path, a search that succeeds puts the files in order, and one that fails names the missing
    file that the first route leads to. -/
theorem order_sorted (files : NameMap String) (entry : String) :
    (∃ r, (∀ r', Visits files [entry] {} r' ↔ r' = r) ∧
      order files entry = r.map Search.sources) ∧
    (∀ listed, order files entry = .ok listed →
      (listed.map fun file => components file.path).Nodup) ∧
    (Unambiguous files entry →
      (∀ listed, order files entry = .ok listed → Ordered files entry listed) ∧
      (∀ path, order files entry = .error path → FirstMissing files entry path)) := by
  have run := visits_iff files entry
  generalize (visitFile files entry {}).map Reached.search = r at run
  have ends : Visits files [entry] {} r := (run r).2 rfl
  have found := order_eq ends
  refine ⟨⟨r, fun r' => (run r').trans eq_comm, found⟩, ?_⟩
  cases r with
  | error lost =>
    refine ⟨by simp [found, Except.map], fun plain => ⟨by simp [found, Except.map], ?_⟩⟩
    intro path failed
    obtain rfl : lost = path := by simpa [found, Except.map] using failed
    obtain ⟨missing, turns, met, leads, once, last, -, first⟩ :=
      ends.lost plain sound_nil (due_entry files entry)
    refine ⟨missing, turns, ⟨met, leads, once, last⟩, ?_⟩
    rintro other others ⟨met', leads', once', last'⟩ missing'
    exact first others met' other leads' once' (by simp) last' missing'
  | ok s =>
    have listed_eq : ∀ listed, order files entry = .ok listed → s.sources = listed := by
      simp [found, Except.map]
    constructor
    · rintro _ ok
      obtain rfl := listed_eq _ ok
      obtain ⟨new, listed, once, -⟩ := ends.added
      have same : s.sources.map SourceFile.path = new := by simpa [Search.paths] using listed
      rwa [← Function.comp_def, ← List.map_map, same]
    · refine fun plain => ⟨?_, by simp [found, Except.map]⟩
      rintro _ ok
      obtain rfl := listed_eq _ ok
      have sound := ends.sound plain sound_nil (due_entry files entry)
      have seen := ends.all_seen entry (by simp)
      refine ⟨fun path => ⟨fun mem => ?_, sound.listed_of_reaches seen⟩,
        fun file mem => (sound.listed file mem).1, ends.entry_last, sound.sorted⟩
      obtain ⟨file, added, rfl⟩ := List.mem_map.1 mem
      exact (sound.listed file added).2.1

def crossed (more : List (String × String)) : NameMap String :=
  ⟨[("left", "import base\nimport main"), ("main", "import left\nimport right"),
    ("right", "import far\nimport base")] ++ more⟩

theorem targets_main : targets "main" "import left\nimport right" = ["left", "right"] := by
  decide +kernel

theorem targets_left : targets "left" "import base\nimport main" = ["base", "main"] := by
  decide +kernel

theorem crossed_order : order (crossed [("base", ""), ("far", "")]) "main" = .ok
    [⟨"base", ""⟩, ⟨"left", "import base\nimport main"⟩, ⟨"far", ""⟩,
      ⟨"right", "import far\nimport base"⟩, ⟨"main", "import left\nimport right"⟩] := by
  have targets_right : targets "right" "import far\nimport base" = ["far", "base"] := by
    decide +kernel
  let base := ((({} : Search).see "main").see "left").see "base" |>.add ⟨"base", ""⟩
  let left := base.add ⟨"left", "import base\nimport main"⟩
  let right := ((left.see "right").see "far").add ⟨"far", ""⟩ |>.add
    ⟨"right", "import far\nimport base"⟩
  have run : Visits (crossed [("base", ""), ("far", "")]) ["main"] {}
      (.ok (right.add ⟨"main", "import left\nimport right"⟩)) := by
    refine .file rfl rfl ?_ .nil
    rw [targets_main]
    refine .file (t := base) (by decide +kernel) rfl ?_ ?_
    · rw [targets_left]
      exact .file (by decide +kernel) rfl .nil (.met (by decide +kernel) .nil)
    · refine .file (by decide +kernel) rfl ?_ .nil
      rw [targets_right]
      exact .file (by decide +kernel) rfl .nil (.met (by decide +kernel) .nil)
  exact order_eq run

theorem crossed_missing : order (crossed []) "main" = .error "base" := by
  refine order_eq (r := .error "base") (.broken rfl rfl ?_)
  rw [targets_main]
  refine .broken (by decide +kernel) rfl ?_
  rw [targets_left]
  exact .missing (by decide +kernel) rfl

theorem order_sorted_crossed :
    Ordered (crossed [("base", ""), ("far", "")]) "main"
      [⟨"base", ""⟩, ⟨"left", "import base\nimport main"⟩, ⟨"far", ""⟩,
        ⟨"right", "import far\nimport base"⟩, ⟨"main", "import left\nimport right"⟩] ∧
    FirstMissing (crossed []) "main" "base" := by
  constructor
  · refine ((order_sorted _ _).2.2 ?_).1 _ crossed_order
    unfold Unambiguous
    decide +kernel
  · refine ((order_sorted _ _).2.2 ?_).2 _ crossed_missing
    unfold Unambiguous
    decide +kernel

end ObjectLang.Imports
