import Stencil.Proofs.Loading

/-!
# Listed templates can be loaded

A loader that picks another one by the beginning of a name cuts the name at the first delimiter,
while it lists names by putting beginning, delimiter and inner name together. The two fit together
for a beginning behind which the delimiter stands for the first time (`Loader.Fits`). In loaders
built of such beginnings to any depth, names are listed in order and once, and every listed template
is found (`Loader.listed_names_load`).
-/

namespace Stencil

open List

/-! ## Cutting at a delimiter -/

namespace Text

variable {cs sep : List Char}

theorem stripStart?_eq_some_iff {p rest} : stripStart? p cs = some rest ↔ cs = p ++ rest := by
  induction p generalizing cs with
  | nil => simp [stripStart?]
  | cons c p ih =>
    cases cs with
    | nil => simp [stripStart?]
    | cons d cs => by_cases hc : c = d <;> simp [stripStart?, hc, ih, eq_comm]

theorem breakOn?_eq_nil_iff {rest} : breakOn? sep cs = some ([], rest) ↔ cs = sep ++ rest := by
  rw [← stripStart?_eq_some_iff]
  cases cs with
  | nil => simp [breakOn?]
  | cons c cs =>
    unfold breakOn?
    cases stripStart? sep (c :: cs) <;> simp

/-- Where a text is cut does not depend on what is put behind it: a separator that begins earlier
ends earlier too. -/
theorem breakOn?_append {before rest} (h : breakOn? sep cs = some (before, rest))
    (more : List Char) :
    sep.length ≤ cs.length ∧ breakOn? sep (cs ++ more) = some (before, rest ++ more) := by
  induction cs generalizing before with
  | nil =>
    obtain ⟨-, rfl⟩ : _ ∧ before = [] := by simpa [breakOn?] using h
    obtain ⟨rfl, rfl⟩ := append_eq_nil_iff.1 (breakOn?_eq_nil_iff.1 h).symm
    exact ⟨Nat.le_refl _, breakOn?_eq_nil_iff.2 rfl⟩
  | cons c cs ih =>
    cases before with
    | nil =>
      have hcs := breakOn?_eq_nil_iff.1 h
      rw [hcs]
      exact ⟨by simp, breakOn?_eq_nil_iff.2 (append_assoc ..)⟩
    | cons d before =>
      unfold breakOn? at h
      split at h
      · cases h
      next hnone =>
        obtain ⟨⟨b, r⟩, hbreak, heq⟩ := Option.map_eq_some_iff.1 h
        cases heq
        obtain ⟨hlength, hmore⟩ := ih hbreak
        have hnone' : stripStart? sep (c :: (cs ++ more)) = none := by
          rw [Option.eq_none_iff_forall_not_mem]
          intro x hx
          have hsep : sep <+: c :: cs := prefix_of_prefix_length_le
            ⟨x, (stripStart?_eq_some_iff.1 hx).symm⟩ (prefix_append (c :: cs) more)
            (Nat.le_succ_of_le hlength)
          obtain ⟨y, hy⟩ := hsep
          rw [stripStart?_eq_some_iff.2 hy.symm] at hnone
          cases hnone
        refine ⟨Nat.le_succ_of_le hlength, ?_⟩
        rw [cons_append, breakOn?, hnone', hmore]
        rfl

theorem occursIn_of_breakOn? {parts} (h : breakOn? sep cs = some parts) :
    Report.occursIn sep cs = true := by
  induction cs generalizing parts with
  | nil =>
    obtain ⟨rest, hstrip, -⟩ := Option.map_eq_some_iff.1 h
    rw [(append_eq_nil_iff.1 (stripStart?_eq_some_iff.1 hstrip).symm).1]
    rfl
  | cons c cs ih =>
    unfold breakOn? at h
    unfold Report.occursIn
    split at h
    next rest hstrip =>
      rw [stripStart?_eq_some_iff.1 hstrip, Bool.or_eq_true]
      exact .inl <| List.isPrefixOf_iff_prefix.2 <| prefix_append _ _
    next =>
      obtain ⟨_, hbreak, -⟩ := Option.map_eq_some_iff.1 h
      rw [ih hbreak, Bool.or_true]

end Text

/-! ## Texts in order -/

namespace Text

/-- Different texts are sorted into increasing order. -/
theorem pairwise_sorted {l : List String} (h : l.Nodup) : (sorted l).Pairwise (· < ·) := by
  have hle : (sorted l).Pairwise fun a b => (!decide (b < a)) = true := by
    apply pairwise_mergeSort
    · intro a b c hab hbc
      simp only [Bool.not_eq_true', decide_eq_false_iff_not, String.not_lt] at hab hbc ⊢
      exact String.le_trans hab hbc
    · intro a b
      simp only [Bool.or_eq_true, Bool.not_eq_true', decide_eq_false_iff_not, String.not_lt]
      exact String.le_total a b
  refine (hle.and ((sorted_perm l).nodup_iff.2 h)).imp fun {a b} hab => ?_
  simp only [Bool.not_eq_true', decide_eq_false_iff_not, String.not_lt] at hab
  exact String.not_le.1 fun hba => hab.2 (String.le_antisymm hab.1 hba)

theorem nodup_of_increasing {l : List String} (h : l.Pairwise (· < ·)) : l.Nodup :=
  h.imp fun {a b} (hlt : a < b) (heq : a = b) => String.lt_irrefl b (heq ▸ hlt)

theorem nodup_eraseDups (l : List String) : l.eraseDups.Nodup := by
  have hkeys := Table.nodup_keys_ofList (l.map fun s => (s, ()))
  rw [Table.keys_ofList, map_map] at hkeys
  exact map_id l ▸ hkeys

end Text

/-! ## What loaders find -/

namespace Loader

/-- The delimiter behind a beginning is the first one in the two put together. -/
def Fits (delimiter start : String) : Prop :=
  Text.breakOn? delimiter.toList (start.toList ++ delimiter.toList) = some (start.toList, [])

/-- Loaders built of dictionaries, choices and beginnings of names to any depth. Every delimiter has
characters, and it fits every beginning that it stands behind. -/
inductive Orderly : Loader → Prop where
  | dict (templates : List (String × Node)) : Orderly (.ofTemplates templates)
  | choice {loaders : List Loader} : (∀ l ∈ loaders, Orderly l) → Orderly (.choice loaders)
  | byPrefix {loaders : List (String × Loader)} {delimiter : String} : delimiter ≠ "" →
    (∀ e ∈ loaders, Fits delimiter e.1) → (∀ e ∈ loaders, Orderly e.2) →
    Orderly (.ofPrefixes loaders delimiter)

/-- What a loader gives for a name, whatever the state, is a template. -/
def Finds (l : Loader) (name : String) : Prop :=
  ∀ s o, ∃ found, ((l.source (.ofText name)).perform s o).1 = .ok found

/-- A search that fails reports that there is no such template. -/
def Reports (search : Operation (Node × Option String)) : Prop :=
  ∀ s o f, (search.perform s o).1 = .error f → isMiss f = true

variable {delimiter start rest name : String} {l : Loader} {loaders : List (String × Loader)}

theorem finds_dict {templates : List (String × Node)} (h : name ∈ templates.map (·.1)) :
    Finds (.dict templates) name := by
  intro s o
  have hnamed : (named? templates (.ofText name)).perform s o =
      (.ok (Table.findIn name templates), o) := rfl
  obtain ⟨tree, hfind⟩ := Table.exists_findIn_of_mem h
  rw [source, Eval.perform_bind, hnamed, hfind]
  exact ⟨_, rfl⟩

theorem reports_dict (templates : List (String × Node)) (name : String) :
    Reports (source (.ofText name) (.dict templates)) := by
  intro s o f h
  have hnamed : (named? templates (.ofText name)).perform s o =
      (.ok (Table.findIn name templates), o) := rfl
  rw [source, Eval.perform_bind, hnamed] at h
  cases hfind : Table.findIn name templates with
  | none => rw [hfind] at h; cases h; rfl
  | some tree => rw [hfind] at h; cases h

/-- Of several loaders, the first one counts that finds a template. -/
theorem firstSource_spec (count : Nat) : ∀ {loaders : List Loader},
    (∀ l ∈ loaders, Reports (source (.ofText name) l)) →
    Reports (firstSource (.ofText name) count loaders) ∧ ∀ l ∈ loaders, l.Finds name →
      ∀ s o, ∃ found, ((firstSource (.ofText name) count loaders).perform s o).1 = .ok found
  | [], _ => ⟨fun _ _ _ h => by cases h; rfl, nofun⟩
  | l :: loaders, h => by
    obtain ⟨hl, hrest⟩ := forall_mem_cons.1 h
    obtain ⟨hreports, hfinds⟩ := firstSource_spec count hrest
    have hstep (s : Surroundings) (o : Objects) :
        (∃ found, ((firstSource (.ofText name) count (l :: loaders)).perform s o).1 = .ok found) ∨
          ¬ l.Finds name ∧ ∃ o', (firstSource (.ofText name) count (l :: loaders)).perform s o =
            (firstSource (.ofText name) count loaders).perform s o' := by
      rcases hrun : (source (.ofText name) l).perform s o with ⟨f | found, o'⟩
      · refine .inr ⟨fun hfound => ?_, o', ?_⟩
        · obtain ⟨found, hok⟩ := hfound s o
          rw [hrun] at hok
          cases hok
        · rw [firstSource, Eval.perform_recover_of_error isMiss _ hrun,
            if_pos (hl s o f (congrArg Prod.fst hrun))]
      · exact .inl ⟨found, congrArg Prod.fst (Eval.perform_recover_of_ok isMiss _ hrun)⟩
    refine ⟨fun s o f hf => ?_, fun l' hl' hfound s o => ?_⟩
    · rcases hstep s o with ⟨found, hok⟩ | ⟨-, o', heq⟩
      · rw [hok] at hf
        cases hf
      · exact hreports s o' f (heq ▸ hf)
    · rcases hstep s o with hok | ⟨hnot, o', heq⟩
      · exact hok
      · rw [heq]
        refine hfinds l' ((mem_cons.1 hl').resolve_left ?_) hfound s o'
        rintro rfl
        exact hnot hfound

/-- Whichever loader stands for the beginning is asked for the rest. -/
theorem reports_prefixSource (available : List String) :
    ∀ {loaders : List (String × Loader)}, (∀ e ∈ loaders, Reports (source (.ofText rest) e.2)) →
    Reports (prefixSource (.ofText name) start rest available loaders)
  | [], _ => fun _ _ _ h => by cases h; rfl
  | (s, l) :: more, h => by
    obtain ⟨hl, hmore⟩ := forall_mem_cons.1 h
    have hrest := reports_prefixSource available hmore
    by_cases hl' : l = .absent
    · rwa [hl', prefixSource]
    · rw [prefixSource.eq_3 _ _ _ _ _ _ _ hl']
      split
      · exact hl
      · exact hrest

/-- The loader for a beginning is asked for the rest of the name. -/
theorem prefixSource_of_findIn {name : Value} (available : List String)
    (hpresent : ∀ e ∈ loaders, e.2 ≠ .absent) (h : Table.findIn start loaders = some l) :
    prefixSource name start rest available loaders = source (.ofText rest) l := by
  induction loaders with
  | nil => cases h
  | cons e more ih =>
    obtain ⟨he, hmore⟩ := forall_mem_cons.1 hpresent
    rw [prefixSource.eq_3 _ _ _ _ _ _ _ he]
    unfold Table.findIn at h
    split at h
    next hstart => rw [if_pos hstart, Option.some.inj h]
    next hstart => rw [if_neg hstart, ih hmore h]

/-- A name is cut where the delimiter first stands, or not at all. -/
theorem perform_splitName_of_ne (hne : delimiter ≠ "") (name : String) (s : Surroundings)
    (o : Objects) :
    (splitName delimiter (.ofText name)).perform s o =
      (.ok (((Text.breakOn? delimiter.toList name.toList).map fun p =>
        (.ofText (String.ofList p.1), String.ofList p.2)).getD (.ofText name, "")), o) := by
  have hwithin : (Eval.within (.ofText delimiter) (.ofText name)).perform s o =
      (.ok (Report.occursIn delimiter.toList name.toList), o) := rfl
  have hempty : delimiter.isEmpty = false := by simpa using hne
  unfold splitName
  rw [Eval.perform_bind, hwithin]
  cases hbreak : Text.breakOn? delimiter.toList name.toList with
  | none =>
    cases Report.occursIn delimiter.toList name.toList with
    | false => rfl
    | true =>
      simp only [Value.ofText, hbreak, hempty, Bool.false_eq_true, if_false, if_true]
      rfl
  | some parts =>
    rw [Text.occursIn_of_breakOn? hbreak]
    simp only [Value.ofText, hbreak, hempty, Bool.false_eq_true, if_false, if_true]
    rfl

theorem breakOn?_listed (h : Fits delimiter start) (rest : String) :
    Text.breakOn? delimiter.toList (start ++ delimiter ++ rest).toList =
      some (start.toList, rest.toList) := by
  have hbreak := (Text.breakOn?_append h rest.toList).2
  rwa [← String.toList_append, ← String.toList_append, nil_append] at hbreak

/-- Listed names are different for different beginnings and for different inner names. -/
theorem listed_inj {start' rest' : String} (h : Fits delimiter start) (h' : Fits delimiter start')
    (heq : start ++ delimiter ++ rest = start' ++ delimiter ++ rest') :
    start = start' ∧ rest = rest' := by
  have hbreak := breakOn?_listed h rest
  rw [heq, breakOn?_listed h' rest'] at hbreak
  simp only [Option.some.injEq, Prod.mk.injEq, String.toList_inj] at hbreak
  exact ⟨hbreak.1.symm, hbreak.2.symm⟩

theorem Orderly.reports (h : l.Orderly) (name : String) : Reports (source (.ofText name) l) := by
  induction h generalizing name with
  | dict templates => exact reports_dict _ name
  | choice _ ih => exact (firstSource_spec _ fun l hl => ih l hl name).1
  | @byPrefix loaders delimiter hne _ _ ih =>
    intro s o f hf
    rw [ofPrefixes, source, Eval.perform_bind, perform_splitName_of_ne hne] at hf
    have hall (start rest : String) : Reports (prefixSource (.ofText name) start rest
        (sortedNames (Table.ofList loaders).entries) (Table.ofList loaders).entries) :=
      reports_prefixSource _ fun e he => ih e (Table.mem_of_mem_ofList he) rest
    cases hbreak : Text.breakOn? delimiter.toList name.toList with
    | none => rw [hbreak] at hf; exact hall _ _ s o f hf
    | some parts => rw [hbreak] at hf; exact hall _ _ s o f hf

/-- A template that is found behind a beginning is found under its listed name. -/
theorem finds_byPrefix (hne : delimiter ≠ "") (hall : ∀ e ∈ loaders, e.2.Orderly)
    {e : String × Loader} (he : e ∈ (Table.ofList loaders).entries) (hfits : Fits delimiter e.1)
    (h : e.2.Finds rest) : Finds (.ofPrefixes loaders delimiter) (e.1 ++ delimiter ++ rest) := by
  intro s o
  have hfind : Table.findIn e.1 (Table.ofList loaders).entries = some e.2 :=
    (Table.findIn_eq_some_iff (Table.nodup_keys_ofList loaders)).2 he
  have hpresent : ∀ e ∈ (Table.ofList loaders).entries, e.2 ≠ .absent := fun e he heq => by
    have hl := hall e (Table.mem_of_mem_ofList he)
    rw [heq] at hl
    cases hl
  rw [ofPrefixes, source, Eval.perform_bind, perform_splitName_of_ne hne, breakOn?_listed hfits,
    Option.map_some, Option.getD_some, String.ofList_toList, String.ofList_toList]
  exact (congrArg (fun x => (x.perform s o).1) (prefixSource_of_findIn _ hpresent hfind)) ▸ h s o

/-! ## What loaders list -/

/-- Names that a loader finds. -/
def AllFound (l : Loader) (names : List String) : Prop :=
  ∀ name ∈ names, l.Finds name

theorem namesOfAll_found {loaders : List Loader}
    (h : ∀ l ∈ loaders, ∃ ns, l.names = .ok ns ∧ l.AllFound ns) :
    ∃ ns, namesOfAll loaders = .ok ns ∧ ∀ name ∈ ns, ∃ l ∈ loaders, l.Finds name := by
  induction loaders with
  | nil => exact ⟨[], rfl, nofun⟩
  | cons l loaders ih =>
    obtain ⟨⟨own, hown, hfound⟩, hrest⟩ := forall_mem_cons.1 h
    obtain ⟨ns, hns, hmem⟩ := ih hrest
    refine ⟨own ++ ns, by rw [namesOfAll, hown, hns]; rfl, fun name hname => ?_⟩
    rcases mem_append.1 hname with hname | hname
    · exact ⟨l, mem_cons_self, hfound name hname⟩
    · exact (hmem name hname).imp fun _ h => ⟨mem_cons_of_mem _ h.1, h.2⟩

/-- Behind different beginnings that fit, no name is listed twice. -/
theorem namesBehind_found (hkeys : (loaders.map (·.1)).Nodup)
    (hfits : ∀ e ∈ loaders, Fits delimiter e.1)
    (h : ∀ e ∈ loaders, ∃ ns, e.2.names = .ok ns ∧ ns.Nodup ∧ e.2.AllFound ns) :
    ∃ ns, namesBehind delimiter loaders = .ok ns ∧ ns.Nodup ∧
      ∀ name ∈ ns, ∃ e ∈ loaders, ∃ rest, e.2.Finds rest ∧ e.1 ++ delimiter ++ rest = name := by
  induction loaders with
  | nil => exact ⟨[], rfl, nodup_nil, nofun⟩
  | cons e loaders ih =>
    obtain ⟨⟨own, hown, hnodup, hfound⟩, h⟩ := forall_mem_cons.1 h
    obtain ⟨hfirst, hfits⟩ := forall_mem_cons.1 hfits
    obtain ⟨hnew, hkeys⟩ := nodup_cons.1 hkeys
    obtain ⟨ns, hns, hdistinct, hmem⟩ := ih hkeys hfits h
    refine ⟨own.map (fun name => e.1 ++ delimiter ++ name) ++ ns,
      by rw [namesBehind, hown, hns]; rfl, nodup_append.2 ⟨?_, hdistinct, ?_⟩, fun name hname => ?_⟩
    · exact pairwise_map.2 (hnodup.imp fun hne heq => hne (listed_inj hfirst hfirst heq).2)
    · intro a ha b hb heq
      obtain ⟨rest, -, rfl⟩ := mem_map.1 ha
      obtain ⟨e', he', rest', -, hb'⟩ := hmem b hb
      have hstart := (listed_inj hfirst (hfits e' he') (heq.trans hb'.symm)).1
      exact hnew (mem_map.2 ⟨e', he', hstart.symm⟩)
    · rcases mem_append.1 hname with hname | hname
      · obtain ⟨rest, hrest, rfl⟩ := mem_map.1 hname
        exact ⟨e, mem_cons_self, rest, hfound rest hrest, rfl⟩
      · exact (hmem name hname).imp fun _ h => ⟨mem_cons_of_mem _ h.1, h.2⟩

/-- **A loader built to any depth of dictionaries, choices and beginnings that delimiters fit**
lists names in increasing order, and it finds every template that it lists. -/
theorem listed_names_load {l : Loader} (h : l.Orderly) :
    ∃ ns, l.names = .ok ns ∧ ns.Pairwise (· < ·) ∧ ∀ name ∈ ns, l.Finds name := by
  induction h with
  | dict templates =>
    refine ⟨_, rfl, Text.pairwise_sorted (Table.nodup_keys_ofList templates), fun name hname => ?_⟩
    exact finds_dict (Text.mem_sorted.1 hname)
  | @choice loaders hall ih =>
    obtain ⟨ns, hns, hmem⟩ := namesOfAll_found fun l hl => (ih l hl).imp fun _ h => ⟨h.1, h.2.2⟩
    refine ⟨Text.sorted ns.eraseDups, by rw [names, hns]; rfl,
      Text.pairwise_sorted (Text.nodup_eraseDups ns), fun name hname => ?_⟩
    obtain ⟨l, hl, hfinds⟩ := hmem name (mem_eraseDups.1 (Text.mem_sorted.1 hname))
    exact (firstSource_spec _ fun l hl => (hall l hl).reports name).2 l hl hfinds
  | @byPrefix loaders delimiter hne hfits hall ih =>
    obtain ⟨ns, hns, hnodup, hmem⟩ := namesBehind_found (Table.nodup_keys_ofList loaders)
      (fun e he => hfits e (Table.mem_of_mem_ofList he)) fun e he =>
        (ih e (Table.mem_of_mem_ofList he)).imp fun _ h =>
          ⟨h.1, Text.nodup_of_increasing h.2.1, h.2.2⟩
    refine ⟨Text.sorted ns, by rw [ofPrefixes, names, hns]; rfl, Text.pairwise_sorted hnodup,
      fun name hname => ?_⟩
    obtain ⟨e, he, rest, hfinds, rfl⟩ := hmem name (Text.mem_sorted.1 hname)
    exact finds_byPrefix hne hall he (hfits e (Table.mem_of_mem_ofList he)) hfinds

/-- A theme in front of what several parts of a site share. -/
theorem theme_names_load :
    let page : Node := .root {} []
    let l : Loader := .choice [
      .ofTemplates [("shared/nav", page), ("base", page)],
      .ofPrefixes [("shared", .ofTemplates [("nav", page), ("foot", page)])] "/"]
    ∃ ns, l.names = .ok ns ∧ "shared/foot" ∈ ns ∧ ns.Pairwise (· < ·) ∧
      ∀ name ∈ ns, l.Finds name := by
  intro page l
  have hfits : Fits "/" "shared" := by unfold Fits; decide
  have horderly : l.Orderly := by
    refine .choice (forall_mem_cons.2 ⟨.dict _, forall_mem_singleton.2 ?_⟩)
    exact .byPrefix (by decide) (forall_mem_singleton.2 hfits) (forall_mem_singleton.2 (.dict _))
  obtain ⟨ns, hnames, hfound⟩ := listed_names_load horderly
  refine ⟨ns, hnames, ?_, hfound⟩
  cases hnames
  simp only [Text.mem_sorted, mem_eraseDups, mem_append, mem_map]
  exact .inr (.inl (.inl ⟨"foot", Text.mem_sorted.2 (by decide), by decide⟩))

/-- A beginning in which the delimiter stands is cut there, so what is listed behind it is not
found. -/
theorem listed_name_missed :
    let l : Loader := .ofPrefixes [("a/b", .ofTemplates [("x", .root {} [])])] "/"
    l.names.toOption = some ["a/b/x"] ∧
      ((l.source (.ofText "a/b/x")).perform {} {}).1.toOption.isSome = false := by
  decide +kernel

end Loader

end Stencil
