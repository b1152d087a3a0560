import Stencil.Proofs.Naming

/-!
# Hygiene of generated identifiers

An identifier of a module is one of a few fixed ones, a temporary that was handed out, or a name of
the template behind a mark that no other identifier bears. Together with what is known of the
temporaries, this says that the identifiers that the compiler chooses are never confused with each
other or with those of the template.
-/

namespace Stencil

open Compile List

namespace Compile

open Script

/-! ## Where identifiers come from -/

/-- An identifier that can occur in the module of a template with the given names when the given
number of temporaries was handed out. -/
def Allowed (names : List String) (count : Nat) : Ident → Prop
  | .temp k => 1 ≤ k ∧ k ≤ count
  | .localName x | .macroName x | .blockName x => x ∈ names
  | _ => True

section

variable {names : List String} {count count' : Nat}

theorem allowed_fixed : ∀ id ∈ [Ident.env, .context, .frame, .runtime, .output, .macroOutput,
    .parentTemplate, .len, .list, .range, .root], Allowed names count id := by
  simp [Allowed]

theorem Allowed.mono {id} (h : Allowed names count id) (hle : count ≤ count') :
    Allowed names count' id := by
  cases id with
  | temp k => exact ⟨h.1, Nat.le_trans h.2 hle⟩
  | _ => exact h

/-- All names are among the given ones. -/
def NamesWithin (names : List String) (ns : List Node) : Prop :=
  ∀ n ∈ ns, ∀ x ∈ givenNames n, x ∈ names

theorem NamesWithin.mono {ns ns'} (h : NamesWithin names ns) (hsub : ns' ⊆ ns) :
    NamesWithin names ns' :=
  fun n hn => h n (hsub hn)

theorem NamesWithin.below {n d} (h : NamesWithin names (n :: n.descendants))
    (hd : d ∈ n.descendants) : NamesWithin names (d :: d.descendants) :=
  h.mono fun _ hx => mem_cons_of_mem _ (Node.cons_subset_descendants hd hx)

theorem allowed_of_mem_entryParams {id} (h : id ∈ entryParams) : Allowed names count id := by
  simp only [entryParams, mem_cons, not_mem_nil, or_false] at h
  rcases h with rfl | rfl | rfl | rfl <;> trivial

/-- All identifiers that occur in code are allowed. -/
def AllowedIn (names : List String) (count : Nat) (ss : List Stmt) : Prop :=
  ∀ id ∈ identifiersIn ss, Allowed names count id

theorem allowedIn_append {ss ts} :
    AllowedIn names count (ss ++ ts) ↔ AllowedIn names count ss ∧ AllowedIn names count ts := by
  unfold AllowedIn
  rw [identifiersIn_append, forall_mem_append]

variable {ss : List Stmt}

attribute [local simp] AllowedIn identifiersIn Stmt.identifiers Expr.identifiers Expr.method
  Expr.joined Expr.text Expr.entryArgs Expr.mentioned mentionedIn mentionedInOperands Expr.assigned
  assignedIn assignedInOperands mentioned_ofContent allowed_fixed

theorem naming_allowed (names : List String) (count : Nat) :
    Naming (Allowed names count) (Allowed names count) where
  known _ h := h
  fixed := by simp [Allowed]

theorem NamesWithin.fits {ns} (h : NamesWithin names ns) (count : Nat) (p : Progress) :
    Fits (namingMakings (Allowed names count) (Allowed names count) True) p ns :=
  (naming_allowed names count).fits (fun n hn x hx => ⟨h n hn x hx, h n hn x hx⟩) fun _ => trivial

theorem allowed_temps (names : List String) (lo count : Nat) :
    (namingMakings (Allowed names count) (Allowed names count) True).Temps lo count :=
  fun k _ hk => ⟨Nat.succ_pos k, hk⟩

theorem allowedIn_delegation (child : Bool) : AllowedIn names count (delegation child) := by
  unfold delegation
  split <;> simp

/-- A function whose code is put between fixed code. -/
theorem allowed_function {f : Script.Function} {head last} (hname : Allowed names count f.name)
    (hparams : f.params = entryParams) (hbody : f.body = head ++ ss ++ last)
    (hhead : AllowedIn names count head) (hss : AllowedIn names count ss)
    (hlast : AllowedIn names count last) : ∀ id ∈ f.identifiers, Allowed names count id := by
  have hall : AllowedIn names count f.body := by
    rw [hbody]
    exact allowedIn_append.2 ⟨allowedIn_append.2 ⟨hhead, hss⟩, hlast⟩
  unfold Function.identifiers
  rw [forall_mem_append, forall_mem_cons, hparams]
  exact ⟨⟨hname, fun id => allowed_of_mem_entryParams⟩, hall⟩

theorem allowed_rootFunction {items : List Node} {p p' f} (h : Gives (rootFunction items) p f p')
    (hn : NamesWithin names (Node.forest items)) :
    ∀ id ∈ f.identifiers, Allowed names p'.temps id := by
  obtain ⟨ss, _, hbuilds, rfl⟩ := gives_rootFunction h
  have hmade := (hbuilds.made (hn.fits _ p) .empty (allowed_temps names _ _)).1 []
  have hss := (usesIn_of_made (naming_allowed names _) hmade trivial).all
  refine allowed_function trivial rfl rfl ?_ (allowedIn_append.2 ⟨hss, allowedIn_delegation _⟩) ?_
  · simp
  · simp

theorem allowed_blockFunction {name : Node.Content} {body p p' f}
    (h : Gives (blockFunction name body) p f p') (hsuper : "super" ∈ names)
    (hname : name.text ∈ names) (hn : NamesWithin names (body :: body.descendants)) :
    ∀ id ∈ f.identifiers, Allowed names p'.temps id := by
  obtain ⟨ss, _, hbuilds, rfl⟩ := gives_blockFunction h
  have hscope : (Scope.set {} "super" (.localName "super")).Only (Allowed names p'.temps) :=
    Scope.Only.empty.set _ hsuper
  have hmade := (hbuilds.made (hn.fits _ p) hscope (allowed_temps names _ _)).1 []
  have hss := (usesIn_of_made (naming_allowed names _) hmade trivial).all
  have hlocal : Allowed names p'.temps (.localName "super") := hsuper
  have hblock : Allowed names p'.temps (.blockName name.text) := hname
  refine allowed_function hblock rfl rfl ?_ hss ?_
  · simp [hlocal, hblock]
  · simp

theorem BuildsBlocks.allowed {table p p' fs} (h : BuildsBlocks table p fs p')
    (hsuper : "super" ∈ names)
    (htable : ∀ entry ∈ table, entry.1.text ∈ names ∧
      NamesWithin names (entry.2 :: entry.2.descendants)) :
    ∀ f ∈ fs, ∀ id ∈ f.identifiers, Allowed names p'.temps id := by
  induction h with
  | nil => exact forall_mem_nil _
  | cons hf hfs ih =>
    obtain ⟨hentry, hrest⟩ := forall_mem_cons.1 htable
    have hfirst := allowed_blockFunction hf hsuper hentry.1 hentry.2
    exact forall_mem_cons.2 ⟨fun id hid => (hfirst id hid).mono hfs.hygienic.1, ih hrest⟩

theorem allowed_templateModule {n p p' m blocks} (h : Gives (templateModule n) p (m, blocks) p')
    (hsuper : "super" ∈ names) (hn : NamesWithin names (n :: n.descendants)) :
    ∀ id ∈ m.identifiers, Allowed names p'.temps id := by
  obtain ⟨pos, items, root, table, blocks, q, rfl, hroot, htable, hblocks, rfl, -⟩ :=
    gives_templateModule h
  obtain ⟨-, hentries⟩ := gives_blockTable htable
  have hle := (buildsBlocks_of_gives hblocks).hygienic.1
  have hfirst := allowed_rootFunction hroot (hn.mono (subset_cons_self _ _))
  have hrest := (buildsBlocks_of_gives hblocks).allowed hsuper fun entry hentry => by
    obtain ⟨⟨pos, name, body, hblock, hc⟩, pos', name', hblock'⟩ := hentries entry hentry
    refine ⟨?_, (hn.below hblock').below (by simp [Node.descendants])⟩
    exact (((hn.below hblock).fits 0 {}).content (by simp [Node.descendants]) hc).1
  intro id hid
  obtain ⟨f, hf, hid⟩ := mem_flatMap.1 hid
  rcases mem_cons.1 hf with hf | hf
  · rw [hf] at hid
    exact (hfirst id hid).mono hle
  · exact hrest f hf id hid

end

end Compile

/-! ## The module of a template -/

open Script

/-- The names that a template gives, with that of the function that a block calls for the definition
it overrides. -/
def Node.names (n : Node) : List String :=
  "super" :: (n :: n.descendants).flatMap givenNames

/-- The spellings of the identifiers that every module may use. -/
def reservedWords : List String :=
  ["env", "context", "frame", "runtime", "output", "macro_output", "parent_template", "root",
    "_len", "_list", "_range"]

/-- The marks before the names of a template. -/
def nameMarks : List String :=
  ["l_", "m_", "b_"]

/-- The identifiers of a module are clean, for a template with the given names whose compilation
handed out the given number of temporaries. -/
structure Script.Module.Clean (m : Module) (names : List String) (count : Nat) : Prop where
  /-- Temporaries are numbered from one up to the count. -/
  numbered : ∀ id ∈ m.identifiers, ∀ k, id.text = "t_" ++ toString k → 1 ≤ k ∧ k ≤ count
  /-- No temporary is the target of two assignments or loops. -/
  once : ∀ k, m.targets.count (.temp k) ≤ 1
  /-- No temporary is such a target and also bound in an expression. -/
  apart : ∀ k v, .bind (.temp k) v ∈ m.parts → .temp k ∉ m.targets
  /-- What a temporary is bound to in expressions is always the same. -/
  equal : ∀ k v v', .bind (.temp k) v ∈ m.parts → .bind (.temp k) v' ∈ m.parts → v = v'
  /-- It is the callee of a call, and of no other one. -/
  call : ∀ k v, .bind (.temp k) v ∈ m.parts →
    ∃ ps ks, ∀ v' ps' ks', dualCall (.temp k) v' ps' ks' ∈ m.parts ↔ v' = v ∧ ps' = ps ∧ ks' = ks
  /-- No temporary is bound in two functions. -/
  single : m.allFunctions.Pairwise fun f g => ∀ k, .temp k ∈ f.bound → .temp k ∉ g.bound
  /-- An identifier is a temporary, a reserved word, or a name of the template behind a mark. -/
  spelling : ∀ id ∈ m.identifiers, (∃ k, id = .temp k) ∨ id.text ∈ reservedWords ∨
    ∃ mark ∈ nameMarks, ∃ x ∈ names, id.text = mark ++ x
  /-- What begins with a mark is neither a reserved word nor a temporary. -/
  marked : ∀ mark ∈ nameMarks, ∀ x : String,
    mark ++ x ∉ reservedWords ∧ ∀ k, mark ++ x ≠ (Ident.temp k).text

theorem toString_injective {j k : Nat} (h : toString j = toString k) : j = k := by
  rw [Nat.toString_eq_ofList_toDigits, Nat.toString_eq_ofList_toDigits, String.ofList_inj] at h
  rw [← Nat.ofDigitChars_ten_toDigits (n := j), h, Nat.ofDigitChars_ten_toDigits]

theorem Script.Ident.text_injective {id id' : Ident} (h : id.text = id'.text) : id = id' := by
  have hchars := congrArg String.toList h
  cases id <;> cases id' <;>
    simp only [Ident.text, String.toList_append, String.reduceToList, cons_append,
      nil_append, cons.injEq, Char.reduceEq, false_and, and_false, true_and, reduceCtorEq,
      String.toList_inj, Ident.temp.injEq, Ident.localName.injEq, Ident.macroName.injEq,
      Ident.blockName.injEq] at hchars ⊢
  case temp.temp => exact toString_injective hchars
  all_goals exact hchars

theorem exists_text_of_mem_reservedWords {w} (h : w ∈ reservedWords) :
    ∃ id : Ident, id.text = w ∧ Allowed [] 0 id := by
  simp only [reservedWords, mem_cons, not_mem_nil, or_false] at h
  rcases h with rfl | rfl | rfl | rfl | rfl | rfl | rfl | rfl | rfl | rfl | rfl
  · exact ⟨.env, rfl, trivial⟩
  · exact ⟨.context, rfl, trivial⟩
  · exact ⟨.frame, rfl, trivial⟩
  · exact ⟨.runtime, rfl, trivial⟩
  · exact ⟨.output, rfl, trivial⟩
  · exact ⟨.macroOutput, rfl, trivial⟩
  · exact ⟨.parentTemplate, rfl, trivial⟩
  · exact ⟨.root, rfl, trivial⟩
  · exact ⟨.len, rfl, trivial⟩
  · exact ⟨.list, rfl, trivial⟩
  · exact ⟨.range, rfl, trivial⟩

/-- A name behind a mark is neither reserved nor a temporary: it spells an identifier of another
kind, and no two identifiers are spelled alike. -/
theorem marked_ne {mark : String} (hmark : mark ∈ nameMarks) (x : String) :
    mark ++ x ∉ reservedWords ∧ ∀ k, mark ++ x ≠ (Ident.temp k).text := by
  obtain ⟨id, hid, hnames, htemp⟩ : ∃ id : Ident, id.text = mark ++ x ∧
      ¬ Allowed [] 0 id ∧ ∀ k, id ≠ .temp k := by
    simp only [nameMarks, mem_cons, not_mem_nil, or_false] at hmark
    rcases hmark with rfl | rfl | rfl
    · exact ⟨.localName x, rfl, not_mem_nil, fun _ => Ident.noConfusion⟩
    · exact ⟨.macroName x, rfl, not_mem_nil, fun _ => Ident.noConfusion⟩
    · exact ⟨.blockName x, rfl, not_mem_nil, fun _ => Ident.noConfusion⟩
  constructor
  · intro hword
    obtain ⟨id', hid', hallowed⟩ := exists_text_of_mem_reservedWords hword
    exact hnames (Ident.text_injective (hid.trans hid'.symm) ▸ hallowed)
  · intro k hk
    exact htemp k (Ident.text_injective (hid.trans hk))

theorem spelling_of_allowed {names count id} (h : Allowed names count id) :
    (∃ k, id = .temp k) ∨ id.text ∈ reservedWords ∨
      ∃ mark ∈ nameMarks, ∃ x ∈ names, id.text = mark ++ x := by
  cases id with
  | temp k => exact .inl ⟨k, rfl⟩
  | localName x => exact .inr (.inr ⟨"l_", by decide, x, h, rfl⟩)
  | macroName x => exact .inr (.inr ⟨"m_", by decide, x, h, rfl⟩)
  | blockName x => exact .inr (.inr ⟨"b_", by decide, x, h, rfl⟩)
  | _ => exact .inr (.inl (by decide))

/-- Every module that a compiler gives has clean identifiers: no temporary is confused with another
one, and no name of the template with anything that the compiler chose. -/
theorem compileModule_clean {c c' : Compiler} {tree : Node} {framed : Bool} {m : Module}
    (h : c.compileModule tree framed = (.ok m, c')) :
    m.Clean tree.names c'.progress.temps := by
  have hgives := Compile.gives_of_compileModule h
  have hhygienic := Compile.hygienic_templateModule hgives
  have hfresh : Compile.Fresh (Compile.Between c.progress.temps c'.progress.temps) m.parts
    m.targets := .of_filter hhygienic.fresh
  have hallowed : ∀ id ∈ m.identifiers, Compile.Allowed tree.names c'.progress.temps id :=
    Compile.allowed_templateModule hgives List.mem_cons_self
      fun n hn x hx => List.mem_cons_of_mem _ (List.mem_flatMap.2 ⟨n, hn, hx⟩)
  exact
    { numbered := fun id hid k hk => by
        have htemp : id = .temp k := Ident.text_injective hk
        rw [htemp] at hid
        exact hallowed _ hid
      once := hfresh.once
      apart := fun k v hv => by
        obtain ⟨⟨j, hj, -, hk⟩, -⟩ := hfresh.bind _ v hv
        rw [hj]
        exact hk
      equal := fun k v v' hv hv' => by
        obtain ⟨-, ps, ks, hcall⟩ := hfresh.bind _ v hv
        obtain ⟨-, ps', ks', hcall'⟩ := hfresh.bind _ v' hv'
        exact (hfresh.same _ _ _ _ _ _ _ hcall hcall').1
      call := fun k v hv => by
        obtain ⟨-, ps, ks, hcall⟩ := hfresh.bind _ v hv
        refine ⟨ps, ks, fun v' ps' ks' => ⟨fun hcall' => ?_, ?_⟩⟩
        · exact hfresh.same _ _ _ _ _ _ _ hcall' hcall
        · rintro ⟨rfl, rfl, rfl⟩
          exact hcall
      single := List.pairwise_map.1 (List.pairwise_cons.1 hhygienic.separate.apart).2
      spelling := fun id hid => spelling_of_allowed (hallowed id hid)
      marked := fun mark hmark x => marked_ne hmark x }

/-- A macro named as a temporary is spelled, a call of it inside a call in a loop, and a block named
as the root function is. -/
theorem macro_in_loop_clean :
    let pos : Position := {}
    let tree : Node := .root pos [ .macroDef pos (.symbol pos "t_1") [] (.text pos "a"),
      .loop pos (.symbol pos "x") (.symbol pos "xs") (.output pos [.call pos (.symbol pos "f")
          (some [.call pos (.symbol pos "t_1") (some [])])]),
      .block pos (.symbol pos "root") (.output pos [.call pos (.symbol pos "super") none])]
    ∃ m c, ({} : Compiler).compileModule tree false = (.ok m, c) ∧ c.progress.temps = 7 ∧
      .localName "t_1" ∈ m.identifiers ∧ .temp 1 ∈ m.identifiers ∧
      .blockName "root" ∈ m.identifiers ∧ .root ∈ m.identifiers ∧ m.Clean tree.names 7 := by
  intro pos tree
  obtain ⟨m, c, hm, htemps, hids⟩ : ∃ m c, ({} : Compiler).compileModule tree false = (.ok m, c) ∧
      c.progress.temps = 7 ∧ ∀ id ∈ [Ident.localName "t_1", .temp 1, .blockName "root", .root],
        id ∈ m.identifiers := ⟨_, _, rfl, rfl, by decide⟩
  have hclean := compileModule_clean hm
  rw [htemps] at hclean
  exact ⟨m, c, hm, htemps, hids _ (by decide), hids _ (by decide), hids _ (by decide),
    hids _ (by decide), hclean⟩

end Stencil
