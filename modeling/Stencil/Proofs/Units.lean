import Stencil.Proofs.Discreet

/-!
# The functions of a template

A tree in which blocks are named by texts has one definition for each of its blocks
(`Node.definitions`): the last one in the tree. Its module holds the root function and one function
for each definition (`Compile.Functions.of_gives`), which a unit lists by the names of the blocks
(`CompiledUnit.ofFunctions_eq_ok`).
-/

namespace Stencil

open List Script Table

/-! ## Compiled units -/

namespace CompiledUnit

variable {β : Type}

theorem blockName?_eq_some_iff {key name} : blockName? key = some name ↔ key = blockKey name := by
  unfold blockName? Text.startsWith blockKey
  constructor
  · intro h
    split at h
    · rename_i hstart
      obtain ⟨rest, hrest⟩ := isPrefixOf_iff_prefix.1 hstart
      rw [← hrest] at h
      cases h
      rw [← String.toList_inj, ← hrest, String.toList_append]
      simp
    · cases h
  · rintro rfl
    rw [if_pos, String.toList_append]
    · simp
    · exact isPrefixOf_iff_prefix.2 ⟨name.toList, String.toList_append.symm⟩

theorem blockKey_inj {name other} (h : blockKey name = blockKey other) : name = other :=
  Option.some.inj ((blockName?_eq_some_iff.2 h).symm.trans (blockName?_eq_some_iff.2 rfl)) |>.symm

theorem blockKey_ne_root (name : String) : blockKey name ≠ "root" := by
  intro h
  have := congrArg (·.toList.head?) h
  simp [blockKey, String.toList_append] at this

theorem mapM_eq_ok {ε α γ : Type} {f : α → Except ε γ} {g} {l : List α}
    (h : ∀ a ∈ l, f a = .ok (g a)) : l.mapM f = .ok (l.map g) := by
  induction l with
  | nil => rfl
  | cons a rest ih =>
    obtain ⟨ha, hrest⟩ := forall_mem_cons.1 h
    rw [mapM_cons, ha, ih hrest]
    rfl

/-- The unit of a root and of blocks, each with its entry point. -/
def listed (root : β) (names : List String) (entry : String → β) : CompiledUnit β :=
  ⟨.ofList (("root", root) :: names.map fun name => (blockKey name, entry name))⟩

/-- The unit of functions that are all there lists its root, and the function of every block. -/
theorem ofFunctions_eq_ok {functions : Table String β} {names} {root : β}
    (hroot : functions.find? "root" = some root)
    (hnames : ∀ name ∈ names, ∃ b, functions.find? ("b_" ++ name) = some b) :
    ∃ entry : String → β, ofFunctions functions names = .ok (listed root names entry) ∧
      ∀ name ∈ names, functions.find? ("b_" ++ name) = some (entry name) := by
  let entry (name : String) : β := (functions.find? ("b_" ++ name)).getD root
  have hentry (name : String) (hname : name ∈ names) :
      functions.find? ("b_" ++ name) = some (entry name) := by
    obtain ⟨b, hb⟩ := hnames name hname
    simp only [entry, hb, Option.getD_some]
  refine ⟨entry, ?_, hentry⟩
  unfold ofFunctions
  simp only [hroot]
  rw [mapM_eq_ok]
  · rfl
  · intro name hname
    simp only [hentry name hname]
    rfl

section

variable (root : β) {names : List String} (entry : String → β) (h : names.Nodup)

include h

theorem entries_listed : (listed root names entry).entries.entries =
    ("root", root) :: names.map fun name => (blockKey name, entry name) := by
  refine entries_ofList ?_
  rw [map_cons, map_map, nodup_cons]
  refine ⟨fun hmem => ?_, pairwise_map.2 (h.imp fun hne heq => hne (blockKey_inj heq))⟩
  obtain ⟨name, -, hname⟩ := mem_map.1 hmem
  exact blockKey_ne_root name hname

/-- The names of different blocks are recovered from their keys. -/
theorem blocks_listed : (listed root names entry).blocks.entries =
    names.map fun name => (name, entry name) := by
  have hroot : blockName? "root" = none := by decide
  have hnames : (names.map fun name => (blockKey name, entry name)).filterMap
      (fun e => (blockName? e.1).map fun name => (name, e.2)) =
        names.map fun name => (name, entry name) := by
    rw [filterMap_map, ← filterMap_eq_map]
    congr 1
    funext name
    simp only [Function.comp, blockName?_eq_some_iff.2 rfl, Option.map_some]
  show (ofList ((listed root names entry).entries.entries.filterMap
    fun e => (blockName? e.1).map fun name => (name, e.2))).entries = _
  rw [entries_listed root entry h, filterMap_cons_none (by simp only [hroot, Option.map_none]),
    hnames]
  refine entries_ofList ?_
  rw [map_map]
  exact pairwise_map.2 h

theorem find?_blocks_listed (name : String) : (listed root names entry).blocks.find? name =
    if name ∈ names then some (entry name) else none := by
  rw [Table.find?, blocks_listed root entry h]
  clear h
  induction names with
  | nil => rfl
  | cons n rest ih =>
    rw [map_cons, findIn, ih]
    by_cases hn : n = name
    · simp [hn]
    · simp [hn, Ne.symm hn]

end

end CompiledUnit

/-! ## The blocks of a tree -/

/-- The text that a node in the place of a name carries. -/
def Node.textName? (n : Node) : Option String :=
  match n.content? with
  | some (.constant (.str s)) => some s
  | _ => none

theorem Node.content?_of_textName? {n : Node} {s} (h : n.textName? = some s) :
    n.content? = some (.constant (.str s)) := by
  unfold textName? at h
  split at h
  · cases h
    assumption
  · cases h

/-- The definitions of blocks anywhere in a tree, by name. When a block is defined more than once,
the last definition counts. -/
def Node.definitions (n : Node) : Table String Node :=
  .ofList (n.blocks.filterMap fun d => d.1.textName?.map fun name => (name, d.2))

namespace Compile

/-- A definition of a block as an entry of the table of blocks. -/
def tableEntry (d : String × Node) : Node.Content × Node :=
  (.constant (.str d.1), d.2)

theorem enterBlock_map (name : String) (body : Node) (l : List (String × Node)) :
    enterBlock (.constant (.str name)) body (l.map tableEntry) =
      (insertIn name body l).map tableEntry := by
  induction l with
  | nil => rfl
  | cons d rest ih =>
    obtain ⟨known, old⟩ := d
    have hequal : (Node.Content.constant (.str known)).equal (.constant (.str name)) =
        (known == name) := rfl
    simp only [map_cons, enterBlock, tableEntry, hequal, insertIn, beq_iff_eq]
    by_cases h : known = name
    · rw [if_pos h, if_pos h]
      rfl
    · rw [if_neg h, if_neg h, map_cons, ← ih]
      rfl

/-- The table of blocks holds the definitions of the tree. -/
theorem blockTable_eq {n : Node} {p p' table} (hnames : ∀ d ∈ n.blocks, d.1.textName?.isSome)
    (h : Gives (blockTable n) p table p') : table = n.definitions.entries.map tableEntry := by
  unfold blockTable at h
  unfold Node.definitions ofList
  generalize n.blocks = blocks at h hnames
  -- The fold enters each block as the table of definitions binds it.
  have hstart : ([] : BlockTable) = ({} : Table String Node).entries.map tableEntry := rfl
  generalize ([] : BlockTable) = start at h hstart
  generalize ({} : Table String Node) = known at hstart ⊢
  induction blocks generalizing start known p with
  | nil =>
    rw [foldlM_nil, gives_pure] at h
    rw [h.1, hstart]
    rfl
  | cons d rest ih =>
    simp only [foldlM_cons, gives_bind, gives_nameOf, gives_demandKey, gives_pure] at h
    obtain ⟨_, _, ⟨c, _, ⟨hc, rfl⟩, _, _, ⟨-, rfl⟩, rfl, rfl⟩, h⟩ := h
    obtain ⟨hname, hnames⟩ := forall_mem_cons.1 hnames
    obtain ⟨name, hname⟩ := Option.isSome_iff_exists.1 hname
    rw [Node.content?_of_textName? hname] at hc
    cases hc
    rw [filterMap_cons_some (by rw [hname]; rfl)]
    refine ih hnames _ h (known.insert name d.2) ?_
    rw [hstart, enterBlock_map]
    rfl

/-- The functions of blocks stand in the order of the table, and are discreet if it is settled
whether the template inherits. -/
theorem BuildsBlocks.at {table p p' fs} (h : BuildsBlocks table p fs p') (i : Nat)
    (f : Script.Function) (hf : fs[i]? = some f) :
    (∃ entry q q', table[i]? = some entry ∧ Gives (blockFunction entry.1 entry.2) q f q') ∧
      ((∀ entry ∈ table, Settled p (entry.2 :: entry.2.descendants)) → IsDiscreetEntry f) := by
  induction h generalizing i with
  | nil => cases hf
  | @cons entry _ _ _ p q _ hg _ ih =>
    cases i with
    | zero =>
      cases hf
      exact ⟨⟨entry, p, q, rfl, hg⟩, fun hsettled =>
        (isDiscreetEntry_blockFunction (hsettled entry mem_cons_self) hg).1⟩
    | succ i =>
      obtain ⟨hentry, hdiscreet⟩ := ih i hf
      refine ⟨hentry, fun hsettled => hdiscreet fun e he => ?_⟩
      have hchild := (isDiscreetEntry_blockFunction (hsettled entry mem_cons_self) hg).2
      exact (hsettled e (mem_cons_of_mem _ he)).mono hchild (Subset.refl _)

end Compile

/-! ## The functions of a module -/

theorem mem_functionValues {q fs id v} :
    (id, v) ∈ functionValues q fs ↔
      ∃ i f, fs[i]? = some f ∧ f.name = id ∧ v = .function (q + i) := by
  induction fs generalizing q with
  | nil => simp [functionValues]
  | cons f rest ih =>
    rw [functionValues, mem_cons, ih, Prod.mk.injEq]
    constructor
    · rintro (⟨rfl, rfl⟩ | ⟨i, g, hg, hname, rfl⟩)
      · exact ⟨0, f, rfl, rfl, rfl⟩
      · exact ⟨i + 1, g, hg, hname, by rw [Nat.add_assoc, Nat.add_comm 1 i]⟩
    · rintro ⟨_ | i, g, hg, hname, rfl⟩
      · cases hg
        exact .inl ⟨hname.symm, rfl⟩
      · exact .inr ⟨i, g, hg, hname, by rw [Nat.add_assoc, Nat.add_comm 1 i]⟩

/-- Once the root function of a tree is compiled, it is settled whether the template inherits. -/
def Compile.SettledByRoot (tree : Node) : Prop :=
  ∀ pos items f p, tree = .root pos items → Gives (rootFunction items) {} f p →
    Settled p tree.descendants

/-- The functions of a compiled tree in which blocks are named by texts: the root, and one function
for each definition. -/
structure Compile.Functions (tree : Node) (fs : List Script.Function) : Prop where
  names : fs.map (·.name) = .root :: tree.definitions.keys.map .blockName
  root : ∃ pos items f p, tree = .root pos items ∧ Gives (rootFunction items) {} f p ∧
    fs[0]? = some f
  block {i : Nat} {f b} : fs[i]? = some f → f.name = .blockName b →
    ∃ body p p', tree.definitions.find? b = some body ∧
      Gives (blockFunction (.constant (.str b)) body) p f p' ∧
      (SettledByRoot tree → IsDiscreetEntry f)

namespace Compile.Functions

variable {tree : Node} {fs : List Script.Function}

/-- The compilation of a template gives such functions, with the names of the definitions. -/
theorem of_gives {m : Module} {names p} (hgives : Gives (templateModule tree) {} (m, names) p)
    (hnames : ∀ d ∈ tree.blocks, d.1.textName?.isSome) :
    Functions tree m.functions ∧ names.map Node.Content.text = tree.definitions.keys := by
  obtain ⟨pos, items, root, table, blocks, q, rfl, hroot, htable, hblocks, rfl, rfl⟩ :=
    gives_templateModule hgives
  have hbodies := (gives_blockTable htable).2
  obtain rfl := blockTable_eq hnames htable
  have hentries (hsettled : SettledByRoot (.root pos items)) :
      ∀ entry ∈ (Node.root pos items).definitions.entries.map tableEntry,
        Settled q (entry.2 :: entry.2.descendants) := by
    intro entry hentry
    obtain ⟨-, at_, name, hblock⟩ := hbodies entry hentry
    refine (hsettled pos items root q rfl hroot).mono rfl fun d hd => ?_
    refine Node.descendants_subset _ hblock ?_
    rw [Node.descendants]
    exact mem_append_right _ hd
  have hrootName : root.name = .root := by
    obtain ⟨_, _, -, rfl⟩ := gives_rootFunction hroot
    rfl
  refine ⟨⟨?_, ⟨pos, items, root, q, rfl, hroot, rfl⟩, fun {i f b} hf hname => ?_⟩, ?_⟩
  · rw [map_cons, hrootName, (buildsBlocks_of_gives hblocks).names.1, map_map, Table.keys, map_map]
    rfl
  · cases i with
    | zero =>
      cases hf
      rw [hrootName] at hname
      cases hname
    | succ i =>
      obtain ⟨⟨entry, p, p', hentry, hgives⟩, hdiscreet⟩ :=
        (buildsBlocks_of_gives hblocks).at i f hf
      rw [getElem?_map, Option.map_eq_some_iff] at hentry
      obtain ⟨d, hd, rfl⟩ := hentry
      have hname' : f.name = .blockName d.1 := by
        obtain ⟨_, _, -, rfl⟩ := gives_blockFunction hgives
        rfl
      cases hname.symm.trans hname'
      refine ⟨d.2, p, p', ?_, hgives, fun hsettled => hdiscreet (hentries hsettled)⟩
      exact (findIn_eq_some_iff (nodup_keys_ofList _)).2 (mem_of_getElem? hd)
  · rw [map_map, map_map, Table.keys]
    rfl

theorem rootName (h : Functions tree fs) : ∃ f, fs[0]? = some f ∧ f.name = .root := by
  obtain ⟨_, _, f, _, -, hroot, hzero⟩ := h.root
  obtain ⟨_, _, -, rfl⟩ := gives_rootFunction hroot
  exact ⟨_, hzero, rfl⟩

theorem nodup (h : Functions tree fs) : (fs.map (·.name)).Nodup := by
  have hkeys : tree.definitions.keys.Nodup := nodup_keys_ofList _
  rw [h.names, nodup_cons]
  refine ⟨by simp, pairwise_map.2 (hkeys.imp fun hne heq => hne ?_)⟩
  exact Ident.blockName.inj heq

theorem unique (h : Functions tree fs) {i j : Nat} {f g} (hf : fs[i]? = some f)
    (hg : fs[j]? = some g) (hname : f.name = g.name) : i = j := by
  have hlt : i < (fs.map (·.name)).length := by
    rw [length_map]
    exact (List.getElem?_eq_some_iff.1 hf).1
  refine (getElem?_inj hlt h.nodup).1 ?_
  rw [getElem?_map, getElem?_map, hf, hg, Option.map_some, Option.map_some, hname]

theorem exists_of_find? (h : Functions tree fs) {b : String} {body}
    (hb : tree.definitions.find? b = some body) :
    ∃ (i : Nat) (f : Script.Function), fs[i]? = some f ∧ f.name = .blockName b := by
  have hmem := (findIn_eq_some_iff (nodup_keys_ofList _)).1 hb
  have hname : .blockName b ∈ fs.map (·.name) := by
    rw [h.names]
    exact mem_cons_of_mem _ (mem_map_of_mem (mem_map_of_mem hmem))
  obtain ⟨f, hf, hfb⟩ := mem_map.1 hname
  obtain ⟨i, hi⟩ := mem_iff_getElem?.1 hf
  exact ⟨i, f, hi, hfb⟩

/-- The names of functions differ in their spelling. -/
theorem name_eq_of_text_eq (h : Functions tree fs) {i j : Nat} {f g} (hf : fs[i]? = some f)
    (hg : fs[j]? = some g) (htext : f.name.text = g.name.text) : f.name = g.name := by
  have hcases {i : Nat} {f : Script.Function} (hf : fs[i]? = some f) :
      f.name = .root ∨ ∃ b, f.name = .blockName b := by
    have hmem : f.name ∈ fs.map (·.name) := mem_map_of_mem (mem_of_getElem? hf)
    rw [h.names, mem_cons, mem_map] at hmem
    exact hmem.imp_right fun ⟨b, _, hb⟩ => ⟨b, hb.symm⟩
  have hne (b : String) : (Ident.blockName b).text ≠ Ident.root.text := fun heq => by
    have hhead := congrArg (·.toList.head?) heq
    simp [Ident.text, String.toList_append] at hhead
  rcases hcases hf with hf | ⟨b, hf⟩ <;> rcases hcases hg with hg | ⟨c, hg⟩ <;>
    rw [hf, hg] at htext ⊢
  · exact absurd htext.symm (hne c)
  · exact absurd htext (hne b)
  · rw [Ident.text, Ident.text, String.append_right_inj] at htext
    rw [htext]

/-- In a table of the functions under keys that tell them apart, each function is found. -/
theorem find?_functionValues {κ γ : Type} [DecidableEq κ] (h : Functions tree fs) {q : Ref}
    (key : Ident → κ) (entry : Value → γ)
    (hkey : ∀ {i j : Nat} {f g : Script.Function}, fs[i]? = some f → fs[j]? = some g →
      key f.name = key g.name → f.name = g.name) {i f} (hf : fs[i]? = some f) :
    (ofList ((functionValues q fs).map fun e => (key e.1, entry e.2))).find? (key f.name) =
      some (entry (.function (q + i))) := by
  have hmem : key f.name ∈ ((functionValues q fs).map fun e => (key e.1, entry e.2)).map (·.1) :=
    mem_map.2 ⟨_, mem_map_of_mem (mem_functionValues.2 ⟨i, f, hf, rfl, rfl⟩), rfl⟩
  obtain ⟨c, hc⟩ := exists_find?_ofList hmem
  obtain ⟨⟨id, v⟩, he, heq⟩ := mem_map.1 (mem_of_find?_ofList hc)
  obtain ⟨j, g, hg, rfl, rfl⟩ := mem_functionValues.1 he
  obtain ⟨hname, rfl⟩ := Prod.mk.inj heq
  obtain rfl := h.unique hf hg (hkey hg hf hname).symm
  exact hc

end Compile.Functions

end Stencil
