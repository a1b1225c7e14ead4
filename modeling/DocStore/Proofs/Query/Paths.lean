import DocStore.Proofs.Config
import DocStore.Proofs.Document.Path
import DocStore.Proofs.Query.Parsing

/-!
# Field references and what they read

A query keeps of a field reference only its names joined by the separator. The names are words (`isWord_of_mem_paths`), so
under a separator with a character that no word has every reference reads along its names. Under a separator of word characters
a name can have the separator in it, and then a reference reads along its names only if the joined path is cut into just these
names (`paths_readAlong`); for some words it is not (`forall_readsAlong_words_iff`).
-/

namespace DocStore.Query

variable {separator text n : String}

/-! ## The paths of a query -/

def ConditionTree.path : ConditionTree → PathTree
  | pathFirst path _ _ => path
  | operandFirst _ _ path => path

def FilterTree.paths (f : FilterTree) : List PathTree := f.first.path :: f.more.map fun m => m.2.path

def SortTree.paths (s : SortTree) : List PathTree := (s.first :: s.more).map (·.path)

/-- The field references of a query, those of its conditions first and then those it sorts by. -/
def QueryTree.paths (q : QueryTree) : List PathTree := q.filters.flatMap (·.paths) ++ q.sort.elim [] (·.paths)

/-- The field of every condition and then of every sort key. -/
def fields (q : Query) : List String := q.conditions.map (·.field) ++ q.sort.map (·.field)

theorem ConditionTree.field_condition (c : ConditionTree) : (c.condition separator).field = c.path.field separator := by
  cases c <;> rfl

theorem FilterTree.fields_conditions (f : FilterTree) :
    (f.conditions separator).map (·.field) = f.paths.map (·.field separator) := by
  simp [conditions, paths, ConditionTree.field_condition]

theorem QueryTree.fields_query (q : QueryTree) : (q.query separator).fields = q.paths.map (·.field separator) := by
  have hfilters : (q.filters.flatMap (·.conditions separator)).map (·.field) =
      (q.filters.flatMap (·.paths)).map (·.field separator) := by
    simp only [List.map_flatMap, FilterTree.fields_conditions]
  have hsort : (q.sort.elim [] (·.keys separator)).map (·.field) = (q.sort.elim [] (·.paths)).map (·.field separator) := by
    cases q.sort with
    | none => rfl
    | some s => simp [SortTree.keys, SortTree.paths, SortKeyTree.key]
  rw [fields, paths, List.map_append, ← hfilters, ← hsort]
  rfl

/-! ## Where a path is written -/

section Tokens

variable {loopVar : String} {p : PathTree}

theorem ConditionTree.tokens_path_subset (c : ConditionTree) : c.path.tokens loopVar ⊆ c.tokens loopVar := by
  cases c with
  | pathFirst path op operand => exact List.subset_append_left _ _
  | operandFirst operand op path => exact fun t ht => List.mem_cons_of_mem _ (List.mem_cons_of_mem _ ht)

theorem FilterTree.tokens_path_subset {f : FilterTree} (h : p ∈ f.paths) : p.tokens loopVar ⊆ f.tokens loopVar := by
  intro t ht
  refine List.mem_cons_of_mem _ (List.mem_append.mpr ?_)
  obtain rfl | hmore := List.mem_cons.mp h
  · exact .inl (f.first.tokens_path_subset ht)
  · obtain ⟨m, hm, rfl⟩ := List.mem_map.mp hmore
    exact .inr (List.mem_flatMap.mpr ⟨m, hm, List.mem_cons_of_mem _ (m.2.tokens_path_subset ht)⟩)

theorem SortTree.tokens_path_subset {s : SortTree} (h : p ∈ s.paths) : p.tokens loopVar ⊆ s.tokens loopVar := by
  intro t ht
  have hkey (k : SortKeyTree) (hk : t ∈ k.path.tokens loopVar) : t ∈ k.tokens loopVar := List.mem_append_left _ hk
  refine List.mem_cons_of_mem _ (List.mem_append.mpr ?_)
  obtain ⟨k, hk, rfl⟩ := List.mem_map.mp h
  obtain rfl | hmore := List.mem_cons.mp hk
  · exact .inl (hkey s.first ht)
  · exact .inr (List.mem_flatMap.mpr ⟨k, hmore, List.mem_cons_of_mem _ (hkey k ht)⟩)

theorem QueryTree.tokens_path_subset {q : QueryTree} (h : p ∈ q.paths) : p.tokens q.loopVar ⊆ q.tokens := by
  intro t ht
  have hbody : t ∈ q.filters.flatMap (·.tokens q.loopVar) ++ q.tailTokens := by
    obtain hfilter | hsort := List.mem_append.mp h
    · obtain ⟨f, hf, hp⟩ := List.mem_flatMap.mp hfilter
      exact List.mem_append_left _ (List.mem_flatMap.mpr ⟨f, hf, FilterTree.tokens_path_subset hp ht⟩)
    · rw [tailTokens]
      cases hs : q.sort with
      | none => rw [hs] at hsort; cases hsort
      | some s =>
        rw [hs] at hsort
        exact List.mem_append_right _ (List.mem_append_left _ (SortTree.tokens_path_subset hsort ht))
  exact List.mem_append_right [_, _, _, _] hbody

theorem PathTree.word_mem_tokens (h : n ∈ p.names) : .word n ∈ p.tokens loopVar :=
  List.mem_cons_of_mem _ (List.mem_flatMap.mpr ⟨n, h, by simp⟩)

/-- The names of a field reference are words. -/
theorem isWord_of_mem_paths {q : QueryTree} (h : tokens text = .ok q.tokens) (hp : p ∈ q.paths) (hn : n ∈ p.names) :
    IsWord n :=
  isWord_of_tokens h (QueryTree.tokens_path_subset hp (PathTree.word_mem_tokens hn))

end Tokens

/-! ## Reading along the names -/

/-- Under an accepted separator all references made of words read along their names exactly if some character of the
separator is in no word. -/
theorem forall_readsAlong_words_iff (hsep : separator ≠ "") :
    (∀ names : List String, names ≠ [] → (∀ n ∈ names, IsWord n) → ∀ d : Document, d.ReadsAlong separator names) ↔
      ∃ x ∈ separator.toList, isWordChar x = false := by
  constructor
  · intro h
    by_contra hno
    have hall : ∀ x ∈ separator.toList, isWordChar x = true := fun x hx =>
      (Bool.not_eq_false _).mp fun hw => hno ⟨x, hx, hw⟩
    -- one word that ends with the separator
    have hword : IsWord ("_" ++ separator) :=
      ⟨'_', separator.toList, by rw [String.toList_append]; rfl, by decide, hall⟩
    have hread := h ["_" ++ separator] (List.cons_ne_nil _ _) fun n hn => List.mem_singleton.mp hn ▸ hword
    have hcut := (Document.forall_readsAlong_iff hsep (List.cons_ne_nil _ _)).mp hread
    rw [String.intercalate_singleton] at hcut
    exact Document.cutNames_append_ne hsep "_" hcut
  · intro h names hne hwords d
    refine (Document.forall_readsAlong_iff hsep hne).mpr ?_ d
    exact Document.cutNames_intercalate h hne fun n hn => (hwords n hn).isWordChar

/-- **What a query reads at its field references.** The fields of a parsed query are its references, the names joined by the
separator, and the names of each are words. Under a separator with a character that no word has, every document reads along the
names of every reference: it gives its top-level field of the joined name, else what the names lead to one after the other, and
nothing exactly if that way breaks. Under any accepted separator this is so of a reference exactly if cutting its joined names
gives just these names. -/
theorem paths_readAlong {c c' : Config} {q : Query} (hset : c.set (.separator separator) = .ok c')
    (h : parse text c'.separator = .ok q) :
    c'.separator = separator ∧
    ∃ tree : QueryTree, tokens text = .ok tree.tokens ∧ tree.query separator = q ∧
      q.fields = tree.paths.map (fun p => separator.intercalate p.names) ∧
      ∀ p ∈ tree.paths, (p.names ≠ [] ∧ ∀ n ∈ p.names, IsWord n) ∧
        ((∃ x ∈ separator.toList, isWordChar x = false) → ∀ d : Document, d.ReadsAlong separator p.names) ∧
        ((∀ d : Document, d.ReadsAlong separator p.names) ↔
          Document.cutNames separator (separator.intercalate p.names) = p.names) := by
  obtain ⟨hne, hc'⟩ := Config.set_separator_eq_ok hset
  rw [hc'] at h
  obtain ⟨tree, htokens, rfl⟩ := parse_eq_ok_iff.mp h
  refine ⟨hc', tree, htokens, rfl, tree.fields_query, fun p hp => ?_⟩
  have hnames : p.names ≠ [] := List.cons_ne_nil _ _
  have hwords : ∀ n ∈ p.names, IsWord n := fun n hn => isWord_of_mem_paths htokens hp hn
  exact ⟨⟨hnames, hwords⟩, fun hx => (forall_readsAlong_words_iff hne).mpr hx p.names hnames hwords,
    Document.forall_readsAlong_iff hne hnames⟩

/-- A condition on one name with an underscore, and a sort key of two names. -/
def namesText : String := "FOR v IN c FILTER v.first_name == 1 SORT v.name.first RETURN v"

def namesTree : QueryTree where
  forWord := .capitals .FOR
  loopVar := "v"
  inWord := .capitals .IN
  collection := "c"
  filters := [⟨.capitals .FILTER, .pathFirst ⟨"first_name", []⟩ .eq (.literal (.ofInt 1)), []⟩]
  sort := some ⟨.capitals .SORT, ⟨⟨"name", ["first"]⟩, .absent⟩, []⟩
  limit := none
  returnWord := .capitals .RETURN

theorem tokens_namesText : tokens namesText = .ok namesTree.tokens :=
  tokens_eq_ok_iff.mpr (scan_of_scanWithin (n := 40) rfl)

theorem parse_namesText (separator : String) : parse namesText separator = .ok (namesTree.query separator) :=
  parse_eq_ok_iff.mpr ⟨namesTree, tokens_namesText, rfl⟩

/-- Under two colons both references read along their names. -/
theorem paths_readAlong_colons : Config.set {} (.separator "::") = .ok { separator := "::" } ∧
    parse namesText "::" = .ok (namesTree.query "::") ∧ (namesTree.query "::").fields = ["first_name", "name::first"] ∧
    ∀ d : Document, d.ReadsAlong "::" ["first_name"] ∧ d.ReadsAlong "::" ["name", "first"] := by
  have hset : Config.set {} (.separator "::") = .ok { separator := "::" } := rfl
  obtain ⟨-, tree, htokens, hq, hfields, h⟩ := paths_readAlong hset (parse_namesText "::")
  obtain rfl : tree = namesTree := QueryTree.tokens_inj (Except.ok.inj (htokens.symm.trans tokens_namesText))
  have hcolon : ∃ x ∈ "::".toList, isWordChar x = false := ⟨':', by decide, by decide⟩
  refine ⟨hset, parse_namesText "::", hfields, fun d => ⟨?_, ?_⟩⟩
  · exact (h ⟨"first_name", []⟩ (by simp [QueryTree.paths, namesTree, FilterTree.paths, ConditionTree.path])).2.1 hcolon d
  · exact (h ⟨"name", ["first"]⟩ (by simp [QueryTree.paths, namesTree, SortTree.paths])).2.1 hcolon d

/-- Under an underscore a reference to one field reads a field of an inner document: the path is cut inside of the name. -/
theorem not_readsAlong_underscore :
    Config.set {} (.separator "_") = .ok { separator := "_" } ∧ parse namesText "_" = .ok (namesTree.query "_") ∧
    (⟨"first_name", .eq, .literal (.ofInt 1)⟩ : Condition) ∈ (namesTree.query "_").conditions ∧
    ∃ d : Document, d.get? "first_name" = none ∧ d.toValue.Breaks ["first_name"] ∧
      d.getPath "first_name" "_" = some (.ofInt 1) ∧ ¬ d.ReadsAlong "_" ["first_name"] := by
  have hbreaks : (Document.ofList [("first", .document [("name", .ofInt 1)])]).toValue.Breaks ["first_name"] := .missing rfl
  have hread : (Document.ofList [("first", .document [("name", .ofInt 1)])]).getPath "first_name" "_" = some (.ofInt 1) := rfl
  refine ⟨rfl, parse_namesText "_", .head _, _, rfl, hbreaks, hread, fun h => ?_⟩
  have hnone := h.missing.mpr ⟨rfl, hbreaks⟩
  rw [String.intercalate_singleton, hread] at hnone
  cases hnone

end DocStore.Query
