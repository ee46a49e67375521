/-
What the entries of a policy file name, in the file's own terms, and that compilation
resolves them to exactly that.

`NamesAccount` and `NamesTarget` say which accounts a src entry and which targets a dst
entry stand for: through the document's own groups and tags, never through the compiled
tables. The compiler is connected to it by:
- `compileGroups_errors`, `compileTags_errors`: groups and tags report nothing exactly
  when every entry resolves;
- `lookup_compileNamed`: the compiled tables hold what the entries resolve to;
- `subjectEntry_ok`, `targetEntry_form`: the ways an entry resolves;
- `subjectEntry_names`, `targetEntry_names`, `actionEntry_names`: an entry that resolves
  gives what it names;
- `machineName_resolves`: the name printed for a machine resolves to it.

Witnesses:
- `threeTeam_resolves`: three machines of one name.
-/
import Paperboat.Policy.Compile

namespace Paperboat.Policy

open Text Search Fold Policy.Index

/-! ## Entries -/

variable {α β : Type}

theorem entryErrors_eq_nil (f : α → Except Problem β) (p : String) (l : List α) :
    entryErrors f p l = [] ↔ ∀ a ∈ l, ∃ b, f a = .ok b := by
  refine flatten_mapIdx_eq_nil _ l _ fun i a _ => ?_
  cases f a <;> simp

theorem mem_entryValues (f : α → Except Problem β) (l : List α) (b : β) :
    b ∈ entryValues f l ↔ ∃ a ∈ l, f a = .ok b := by
  unfold entryValues
  rw [List.mem_filterMap]
  refine exists_congr fun a => and_congr_right fun _ => ?_
  cases f a <;> simp [Except.toOption]

/-- the accounts or targets of a list of entries, each once -/
theorem mem_entries [DecidableEq β] (f : α → Except Problem (List β)) (l : List α) (b : β) :
    b ∈ dedup (entryValues f l).flatten ↔ ∃ a ∈ l, ∃ bs, f a = .ok bs ∧ b ∈ bs := by
  rw [mem_dedup, List.mem_flatten]
  constructor
  · rintro ⟨bs, hbs, hb⟩
    obtain ⟨a, ha, hf⟩ := (mem_entryValues f l bs).1 hbs
    exact ⟨a, ha, bs, hf, hb⟩
  · rintro ⟨a, ha, bs, hf, hb⟩
    exact ⟨bs, (mem_entryValues f l bs).2 ⟨a, ha, hf⟩, hb⟩

/-! ## Names -/

section

variable (u : Unicode) (x : Index)

theorem colon_toList : (":" : String).toList = [':'] := rfl

/-- the part before the first colon, of a text written with a kind in front -/
theorem cut_kind {kind : String} (hk : ':' ∉ kind.toList) (name : String) :
    cut (kind ++ ":" ++ name) ":" = (kind, name, true) := cut_sep colon_toList kind name hk

/-- the part after the first colon is empty, or the text is the two parts around a colon -/
theorem cut_cases (e : String) : (cut e ":").2.1 = "" ∨ e = (cut e ":").1 ++ ":" ++ (cut e ":").2.1 := by
  cases hc : cut e ":" with
  | mk a rest =>
    obtain ⟨b, found⟩ := rest
    cases found with
    | true => exact .inr (cut_true colon_toList hc).1
    | false => exact .inl (cut_false colon_toList hc).2.1

variable {a e : String}

theorem user_eq_some :
    x.user u e = some a ↔ ∃ email m, e = "user:" ++ email ∧ x.byEmail (toLower u email) = some m ∧ m.accountID = a := by
  unfold user
  constructor
  · intro h
    cases hc : cutPrefix e "user:" with
    | none => rw [hc] at h; simp at h
    | some email =>
      rw [hc] at h
      obtain ⟨m, hm, ha⟩ := Option.map_eq_some_iff.1 h
      exact ⟨email, m, cutPrefix_eq_some.1 hc, hm, ha⟩
  · rintro ⟨email, m, rfl, hm, rfl⟩
    simp [hm]

variable (name : String)

theorem cut_group : cut ("group:" ++ name) ":" = ("group", name, true) := @cut_kind "group" (by decide) name

theorem cut_role : cut ("role:" ++ name) ":" = ("role", name, true) := @cut_kind "role" (by decide) name

theorem cut_tag : cut ("tag:" ++ name) ":" = ("tag", name, true) := @cut_kind "tag" (by decide) name

theorem cut_machine : cut ("machine:" ++ name) ":" = ("machine", name, true) := @cut_kind "machine" (by decide) name

theorem resolveUser_eq_ok {what : String} : resolveUser u x e what = .ok a ↔ x.user u e = some a := by
  unfold resolveUser
  constructor
  · intro h
    split_ifs at h
    cases hu : x.user u e with
    | none => rw [hu] at h; simp at h
    | some b => rw [hu] at h; simpa using h
  · intro h
    obtain ⟨email, m, rfl, _, _⟩ := (user_eq_some u x).1 h
    have hp : hasPrefix ("user:" ++ email) "user:" = true := (hasPrefix_iff _ _).2 ⟨email, rfl⟩
    simp [hp, h]

section

variable {u} {inv : Inventory}

theorem mem_byName {m : Machine} {name : String} : m ∈ (newIndex u inv).byName name ↔
    m ∈ inv.machines ∧ (m.aliasName = name ∨ (newIndex u inv).qualified u m ≠ "" ∧
      (newIndex u inv).qualified u m = name) := by
  have hby : (newIndex u inv).byName name = inv.machines.flatMap fun m => (if m.aliasName = name then [m] else []) ++
      (if (newIndex u inv).qualified u m ≠ "" ∧ (newIndex u inv).qualified u m = name then [m] else []) := rfl
  simp only [hby, List.mem_flatMap, List.mem_append, List.mem_ite_nil_right, List.mem_singleton]
  constructor
  · rintro ⟨m', hm', ⟨h, rfl⟩ | ⟨h, rfl⟩⟩
    · exact ⟨hm', .inl h⟩
    · exact ⟨hm', .inr h⟩
  · rintro ⟨hm, h | h⟩
    · exact ⟨m, hm, .inl ⟨h, rfl⟩⟩
    · exact ⟨m, hm, .inr ⟨h, rfl⟩⟩

/-- the machine a name resolves to is the only one of the name, or the only team-owned one among several -/
theorem machine_eq_ok {name : String} {m : Machine} (h : (newIndex u inv).machine u name = .ok m) :
    (newIndex u inv).byName (foldOwner u name) = [m] ∨
      (1 < ((newIndex u inv).byName (foldOwner u name)).length ∧ m.personalOwner = "" ∧
        m ∈ (newIndex u inv).byName (foldOwner u name)) := by
  unfold machine preferTeam at h
  split_ifs at h with hp
  · refine .inr ⟨hp.1, ?_⟩
    split at h
    · cases h
    · next m' hl =>
      cases h
      have hm : m ∈ ((newIndex u inv).byName (foldOwner u name)).filter fun m => m.personalOwner = "" := by
        rw [hl]; exact List.mem_singleton_self m
      obtain ⟨h1, h2⟩ := List.mem_filter.1 hm
      exact ⟨by simpa using h2, h1⟩
    · cases h
  · split at h
    · cases h
    · next m' hl => cases h; exact .inl hl
    · cases h

end

variable {inv : Inventory}

/-- a machine a name resolves to is in the inventory -/
theorem machine_mem {name : String} {m : Machine} (h : (newIndex u inv).machine u name = .ok m) : m ∈ inv.machines := by
  rcases machine_eq_ok h with hone | ⟨_, _, hm⟩
  · exact (mem_byName.1 (hone ▸ List.mem_singleton_self m)).1
  · exact (mem_byName.1 hm).1

variable {id : String}

theorem target_machine (h : (newIndex u inv).target u e = some ⟨.machine, id⟩) : ∃ m ∈ inv.machines, m.id = id := by
  unfold target at h
  split_ifs at h
  · cases hm : (newIndex u inv).machine u (cut e ":").2.1 with
    | error ne => rw [hm] at h; simp at h
    | ok m =>
      rw [hm] at h
      simp only [Option.some.injEq, Target.mk.injEq, true_and] at h
      exact ⟨m, machine_mem u hm, h⟩
  all_goals simp [Option.map_eq_some_iff] at h

/-! ## Groups and tags -/

section Named

/-- every list has a good name, and its entries resolve -/
def NamedOk (nameOk : String → Bool) (entry : String → Except Problem String)
    (lists : List (String × List String)) : Prop :=
  ∀ l ∈ lists, nameOk l.1 = true ∧ ∀ e ∈ l.2, ∃ a, entry e = .ok a

variable {nameOk : String → Bool} {entry : String → Except Problem String} {path what : String}
  {lists : List (String × List String)}

theorem compileNamed_errors : (compileNamed nameOk entry path what lists).1 = [] ↔ NamedOk nameOk entry lists := by
  unfold compileNamed NamedOk
  rw [List.flatMap_eq_nil_iff]
  refine forall₂_congr fun l _ => ?_
  split_ifs with h
  · simp [entryErrors_eq_nil, h]
  · simp [h]

variable {l : List String} {k : String}

/-- a compiled list holds what its entries resolve to -/
theorem mem_compileNamed (hok : NamedOk nameOk entry lists) :
    (k, l) ∈ (compileNamed nameOk entry path what lists).2 ↔ ∃ es, (k, es) ∈ lists ∧ l = entryValues entry es := by
  unfold compileNamed
  rw [List.filter_eq_self.2 fun l hl => (hok l hl).1]
  simp only [List.mem_map, Prod.mk.injEq, Prod.exists]
  exact ⟨fun ⟨k', es, hm, hk, hl⟩ => ⟨es, hk ▸ hm, hl.symm⟩, fun ⟨es, hm, hl⟩ => ⟨k, es, hm, rfl, hl.symm⟩⟩

theorem lookup_compileNamed (hn : (lists.map Prod.fst).Nodup) (hok : NamedOk nameOk entry lists) :
    (compileNamed nameOk entry path what lists).2.lookup k = some l ↔
      ∃ es, (k, es) ∈ lists ∧ l = entryValues entry es := by
  rw [lookup_eq_some, mem_compileNamed hok]
  simp only [compileNamed, List.map_map]
  exact (List.Sublist.map Prod.fst List.filter_sublist).nodup hn

end Named

/-- every group is named group:<name> and lists members of the workspace -/
def GroupsOk (groups : List (String × List String)) : Prop := NamedOk groupNameOk (groupEntry u x) groups

/-- every tag is named tag:<name> and lists machines of the workspace -/
def TagsOk (tags : List (String × List String)) : Prop := NamedOk tagNameOk (tagEntry u x) tags

variable {groups tags : List (String × List String)} {k : String}

theorem compileGroups_errors : (compileGroups u x groups).1 = [] ↔ GroupsOk u x groups := compileNamed_errors

theorem compileTags_errors : (compileTags u x tags).1 = [] ↔ TagsOk u x tags := compileNamed_errors

theorem nameOk_eq {p : String} (h : (cutPrefix k p).any validName = true) : ∃ name, k = p ++ name := by
  obtain ⟨name, hc, _⟩ := (Option.any_eq_true _ _).1 h
  exact ⟨name, cutPrefix_eq_some.1 hc⟩

/-- a tag entry that resolves names a machine the way a dst entry does -/
theorem tagEntry_target (h : tagEntry u x e = .ok id) : x.target u e = some ⟨.machine, id⟩ := by
  unfold tagEntry at h
  cases hc : cutPrefix e "machine:" with
  | none => rw [hc] at h; simp at h
  | some name =>
    rw [hc] at h
    simp only at h
    split_ifs at h
    cases hm : x.machine u name with
    | error ne => rw [hm] at h; simp at h
    | ok m =>
      rw [hm] at h
      simp only [Except.ok.injEq] at h
      subst h
      rw [cutPrefix_eq_some.1 hc]
      simp [target, cut_machine, hm]

/-! ## What an entry names -/

variable (d : Document)

/-- the account `a` is among those the src entry `e` names -/
def NamesAccount (e a : String) : Prop :=
  (e = "*" ∧ ∃ m ∈ x.inv.members, m.accountID = a) ∨
  x.user u e = some a ∨
  (∃ entries, (e, entries) ∈ d.groups ∧ ∃ s ∈ entries, x.user u s = some a) ∨
  (∃ name, e = "role:" ++ name ∧ ∃ m ∈ x.inv.members, m.accountID = a ∧ roleMatches name m.role = true)

/-- the target `t` is among those the dst entry `e` names -/
def NamesTarget (e : String) (t : Target) : Prop :=
  (e = "machine:*" ∧ ∃ m ∈ x.inv.machines, t = ⟨.machine, m.id⟩) ∨
  (e ≠ "machine:*" ∧ x.target u e = some t) ∨
  (∃ entries, (e, entries) ∈ d.tags ∧ ∃ s ∈ entries, x.target u s = some t)

/-- a machine an entry names is in the inventory -/
theorem namesTarget_machine (h : NamesTarget u (newIndex u inv) d e ⟨.machine, id⟩) :
    ∃ m ∈ inv.machines, m.id = id := by
  rcases h with ⟨_, m, hm, ht⟩ | ⟨_, ht⟩ | ⟨entries, _, s, _, ht⟩
  · exact ⟨m, hm, (congrArg Target.id ht).symm⟩
  · exact target_machine u ht
  · exact target_machine u ht

theorem user_kind (h : x.user u e = some a) : (cut e ":").1 = "user" := by
  obtain ⟨email, m, rfl, _, _⟩ := (user_eq_some u x).1 h
  exact congrArg Prod.fst (@cut_kind "user" (by decide) email)

theorem cut_star : cut "*" ":" = ("*", "", false) := cut_none colon_toList "*" (by decide)

/-- an entry of another kind is not the star -/
theorem ne_star {k : String} (hk : (cut e ":").1 = k) (hne : "*" ≠ k) : e ≠ "*" := by
  rintro rfl
  rw [cut_star] at hk
  exact hne hk

variable {entries : List String}

theorem mem_group_entries : a ∈ entryValues (groupEntry u x) entries ↔ ∃ s ∈ entries, x.user u s = some a := by
  rw [mem_entryValues]
  exact exists_congr fun s => and_congr_right fun _ => resolveUser_eq_ok u x

theorem mem_tag_entries (hok : ∀ e ∈ entries, ∃ id, tagEntry u x e = .ok id) {t : Target} :
    t ∈ (entryValues (tagEntry u x) entries).map (fun id => (⟨.machine, id⟩ : Target)) ↔
      ∃ s ∈ entries, x.target u s = some t := by
  simp only [List.mem_map, mem_entryValues]
  constructor
  · rintro ⟨id, ⟨s, hs, hid⟩, rfl⟩
    exact ⟨s, hs, tagEntry_target u x hid⟩
  · rintro ⟨s, hs, ht⟩
    obtain ⟨id, hid⟩ := hok s hs
    rw [tagEntry_target u x hid] at ht
    exact ⟨id, ⟨s, hs, hid⟩, Option.some.inj ht⟩

/-- the ways a src entry resolves -/
inductive SubjectForm (groups : List (String × List String)) (e : String) (as : List String) : Prop where
  | all (he : e = "*") (has : as = x.inv.members.map Member.accountID)
  | user (a : String) (hu : x.user u e = some a) (has : as = [a])
  | group (hk : (cut e ":").1 = "group") (hl : groups.lookup e = some as)
  | role (name : String) (he : e = "role:" ++ name) (hin : name ∈ roles)
      (has : as = (x.inv.members.filter fun m => roleMatches name m.role).map Member.accountID)

variable {as : List String}

theorem subjectEntry_ok : subjectEntry u x groups e = .ok as ↔ SubjectForm u x groups e as := by
  unfold subjectEntry
  constructor
  · intro h
    split_ifs at h with hstar huser hgrp hrol hin
    · exact .all hstar (Except.ok.inj h).symm
    · cases hr : resolveUser u x e "" with
      | error q => rw [hr] at h; simp [Except.map] at h
      | ok a =>
        rw [hr] at h
        exact .user a ((resolveUser_eq_ok u x).1 hr) (Except.ok.inj h).symm
    · cases hl : groups.lookup e with
      | none => rw [hl] at h; simp at h
      | some members => rw [hl] at h; exact .group hgrp (hl.trans (congrArg some (Except.ok.inj h)))
    · refine .role (cut e ":").2.1 ?_ hin (Except.ok.inj h).symm
      rcases cut_cases e with hempty | hcut
      · rw [hempty] at hin; exact absurd hin (by decide)
      · rw [hrol] at hcut; exact hcut
  · rintro (⟨rfl, rfl⟩ | ⟨a, hu, rfl⟩ | ⟨hk, hl⟩ | ⟨name, rfl, hin, rfl⟩)
    · simp
    · have hk := user_kind u x hu
      rw [if_neg (ne_star hk (by decide)), if_pos hk, (resolveUser_eq_ok u x).2 hu]; rfl
    · rw [if_neg (ne_star hk (by decide)), if_neg (by rw [hk]; decide), if_pos hk, hl]
    · have hne := ne_star (k := "role") (congrArg Prod.fst (cut_role name)) (by decide)
      simp [hne, cut_role, hin]

/-- **Subjects.** A src entry that resolves gives the accounts it names. -/
theorem subjectEntry_names (hg : GroupsOk u x d.groups)
    (h : subjectEntry u x (compileGroups u x d.groups).2 e = .ok as) (a : String) :
    a ∈ as ↔ NamesAccount u x d e a := by
  -- each way to name an account fixes the part before the colon, so the four exclude each other
  have hother : ∀ {k}, (cut e ":").1 = k → ("*" ≠ k → e ≠ "*") ∧ ("user" ≠ k → ∀ b, x.user u e ≠ some b) ∧
      ("group" ≠ k → ∀ entries, (e, entries) ∉ d.groups) ∧ ("role" ≠ k → ∀ name : String, e ≠ "role:" ++ name) := by
    refine fun hk => ⟨ne_star hk, fun hne b hu => hne ((user_kind u x hu).symm.trans hk), fun hne entries hm => ?_, ?_⟩
    · obtain ⟨name, rfl⟩ := nameOk_eq (hg _ hm).1
      exact hne (by rw [← hk, cut_group])
    · rintro hne name rfl
      exact hne (by rw [← hk, cut_role])
  unfold NamesAccount
  cases (subjectEntry_ok u x).1 h with
  | all he has =>
    subst he
    obtain ⟨_, huser, hgroup, hrole⟩ := hother (k := "*") (by rw [cut_star])
    simp [has, huser (by decide), hgroup (by decide), hrole (by decide)]
  | user b hu has =>
    obtain ⟨hstar, _, hgroup, hrole⟩ := hother (user_kind u x hu)
    simp only [has, hu, hstar (by decide), hgroup (by decide), hrole (by decide), false_and,
      exists_false, or_false, false_or, List.mem_singleton, Option.some.injEq]
    exact eq_comm
  | group hk hl =>
    obtain ⟨entries, hm, rfl⟩ := (lookup_compileNamed d.groups_nodup hg).1 hl
    obtain ⟨hstar, huser, _, hrole⟩ := hother hk
    simp only [mem_group_entries, hstar (by decide), huser (by decide), hrole (by decide),
      false_and, exists_false, false_or, or_false]
    refine ⟨fun ha => ⟨entries, hm, ha⟩, fun ⟨entries', hm', ha⟩ => ?_⟩
    obtain rfl : entries = entries' := congrArg Prod.snd (List.inj_on_of_nodup_map d.groups_nodup hm hm' rfl)
    exact ha
  | role name he hin has =>
    obtain ⟨hstar, huser, hgroup, _⟩ := hother (k := "role") (by rw [he, cut_role])
    simp only [has, hstar (by decide), huser (by decide), hgroup (by decide), false_and,
      exists_false, false_or, List.mem_map, List.mem_filter]
    constructor
    · rintro ⟨m, ⟨hm, hr⟩, ha⟩
      exact ⟨name, he, m, hm, ha, hr⟩
    · rintro ⟨name', he', m, hm, ha, hr⟩
      obtain rfl : name = name' := by simpa using he.symm.trans he'
      exact ⟨m, ⟨hm, hr⟩, ha⟩

/-- the ways a dst entry resolves -/
inductive TargetForm (tags : List (String × List String)) (e : String) (ts : List Target) : Prop where
  | all (he : e = "machine:*") (hts : ts = x.inv.machines.map fun m => ⟨.machine, m.id⟩)
  | tag (hk : (cut e ":").1 = "tag") (ids : List String) (hl : tags.lookup e = some ids)
      (hts : ts = ids.map fun id => ⟨.machine, id⟩)
  | one (he : e ≠ "machine:*") (t : Target) (ht : x.target u e = some t) (hts : ts = [t])

theorem cut_all : cut "machine:*" ":" = ("machine", "*", true) := cut_machine "*"

theorem target_tag (hk : (cut e ":").1 = "tag") : x.target u e = none := by
  simp [target, hk]

variable {ts : List Target}

theorem targetEntry_form (h : targetEntry u x tags e = .ok ts) : TargetForm u x tags e ts := by
  unfold targetEntry at h
  have hall : (cut e ":").1 ≠ "machine" ∨ (cut e ":").2.1 ≠ "*" → e ≠ "machine:*" := by
    rintro h rfl
    rw [cut_all] at h
    simp at h
  have hres : ∀ kind, resourceEntry u x kind e = .ok ts → ∃ r, x.resources e = some r ∧ ts = [⟨kind.target, r.id⟩] := by
    intro kind h
    unfold resourceEntry at h
    cases hr : x.resources e with
    | none => rw [hr] at h; simp at h
    | some r => rw [hr] at h; exact ⟨r, rfl, (Except.ok.inj h).symm⟩
  split_ifs at h with hm hstar htg hp htn he hteam hname
  · refine .all ?_ (Except.ok.inj h).symm
    rcases cut_cases e with hempty | hcut
    · rw [hempty] at hstar; exact absurd hstar (by decide)
    · rw [hm, hstar] at hcut; exact hcut
  · cases hmach : x.machine u (cut e ":").2.1 with
    | error ne => rw [hmach] at h; simp at h
    | ok m =>
      rw [hmach] at h
      exact .one (hall (.inr hstar)) ⟨.machine, m.id⟩ (by simp [target, hm, hmach]) (Except.ok.inj h).symm
  · cases hl : tags.lookup e with
    | none => rw [hl] at h; simp at h
    | some ids => rw [hl] at h; exact .tag htg ids hl (Except.ok.inj h).symm
  · obtain ⟨r, hr, hts⟩ := hres .preview h
    exact .one (hall (.inl hm)) _ (by simp [target, hp, hr, ResourceKind.target]) hts
  · obtain ⟨r, hr, hts⟩ := hres .tunnel h
    exact .one (hall (.inl hm)) _ (by simp [target, htn, hr, ResourceKind.target]) hts
  · have hteam' : x.inv.team = true := by simpa using hteam
    have hname' : (cut e ":").2.1 = "team" := by simpa using hname
    exact .one (hall (.inl hm)) _ (by simp [target, he, hteam', hname']) (Except.ok.inj h).symm

/-- **Targets.** A dst entry that resolves gives the targets it names. -/
theorem targetEntry_names (ht : TagsOk u x d.tags)
    (h : targetEntry u x (compileTags u x d.tags).2 e = .ok ts) (t : Target) : t ∈ ts ↔ NamesTarget u x d e t := by
  have htag : ∀ entries, (e, entries) ∈ d.tags → (cut e ":").1 = "tag" := by
    intro entries hm
    obtain ⟨name, rfl⟩ := nameOk_eq (ht _ hm).1
    rw [cut_tag]
  have hall : e = "machine:*" → (cut e ":").1 = "machine" := by rintro rfl; rw [cut_all]
  unfold NamesTarget
  cases targetEntry_form u x h with
  | all he hts =>
    subst hts
    simp only [he, List.mem_map, true_and, ne_eq, not_true_eq_false, false_and, false_or]
    constructor
    · rintro ⟨m, hm, rfl⟩; exact .inl ⟨m, hm, rfl⟩
    · rintro (⟨m, hm, rfl⟩ | ⟨entries, h, _⟩)
      · exact ⟨m, hm, rfl⟩
      · have := (hall he).symm.trans (htag entries (he ▸ h))
        exact absurd this (by decide)
  | tag hk ids hl hts =>
    subst hts
    obtain ⟨entries, hmem, rfl⟩ := (lookup_compileNamed d.tags_nodup ht).1 hl
    have hne : e ≠ "machine:*" := fun he => nomatch hk.symm.trans (hall he)
    rw [mem_tag_entries u x (ht _ hmem).2]
    simp only [hne, false_and, target_tag u x hk, and_false, false_or, reduceCtorEq]
    constructor
    · intro hs; exact ⟨entries, hmem, hs⟩
    · rintro ⟨entries', hmem', hs⟩
      obtain rfl : entries = entries' := congrArg Prod.snd (List.inj_on_of_nodup_map d.tags_nodup hmem hmem' rfl)
      exact hs
  | one he t' ht' hts =>
    subst hts
    simp only [he, false_and, ne_eq, not_false_eq_true, true_and, false_or, ht', Option.some.injEq, List.mem_singleton]
    constructor
    · rintro rfl; exact .inl rfl
    · rintro (h | ⟨entries, h, _⟩)
      · exact h.symm
      · rw [target_tag u x (htag entries h)] at ht'; cases ht'

/-- the actions a list of a rule stands for -/
theorem actionEntry_names {family : Option Family} (hf : family ≠ none)
    (h : actionEntry u family e = .ok as) (a : String) : a ∈ as ↔ a ∈ expandActions [e] := by
  unfold actionEntry at h
  unfold expandActions
  have hstar : "*" ∉ familyActions family := by
    cases family with
    | none => exact absurd rfl hf
    | some f => cases f <;> decide
  split_ifs at h with h1 h2
  · cases h; simp [h1.1]
  · cases h
    have : e ≠ "*" := fun he => hstar (he ▸ h2)
    simp [this]

end

/-! ## Printed names -/

/-- the names of an inventory tell its machines apart -/
structure Inventory.Distinct (u : Unicode) (inv : Inventory) : Prop where
  ids : (inv.machines.map Machine.id).Nodup
  /-- ignoring case -/
  emails : (inv.members.map fun o => toLower u o.email).Nodup
  slash : ∀ m ∈ inv.machines, '/' ∉ m.aliasName.toList
  /-- per personal owner, and among the team-owned machines -/
  aliases : ∀ m ∈ inv.machines, ∀ n ∈ inv.machines, m.personalOwner = n.personalOwner →
    m.aliasName = n.aliasName → m = n
  owners : ∀ m ∈ inv.machines, m.personalOwner ≠ "" → ∃ o ∈ inv.members, o.accountID = m.personalOwner

section

variable {u : Unicode}

/-- an email in lower case is read back as it is, also when it holds a slash -/
theorem foldOwner_lower (email name : String) :
    foldOwner u (toLower u email ++ "/" ++ name) = toLower u email ++ "/" ++ name := by
  -- the part before the first slash holds runes of the email only
  obtain ⟨l, r, hl, hslash⟩ := List.eq_append_cons_of_mem
    (List.mem_append_right (toLower u email).toList (List.mem_singleton_self '/'))
  have hs : toLower u email ++ "/" ++ name = String.ofList l ++ "/" ++ (String.ofList r ++ name) := by
    refine String.toList_inj.1 ?_
    simp only [String.toList_append, String.toList_ofList]
    rw [show ("/" : String).toList = ['/'] from rfl, hl]
    simp
  have hlow : toLower u (String.ofList l) = String.ofList l := by
    rw [toLower, String.toList_ofList, List.map_congr_left (g := id) fun c hc => ?_, List.map_id]
    have hmem : c ∈ (toLower u email).toList ++ ['/'] := hl ▸ List.mem_append_left _ hc
    rcases List.mem_append.1 hmem with he | he
    · simp only [toLower, String.toList_ofList, List.mem_map] at he
      obtain ⟨c', _, rfl⟩ := he
      exact u.lower_lower c'
    · exact absurd (List.mem_singleton.1 he ▸ hc) hslash
  rw [hs, foldOwner, cut_sep (c := '/') rfl _ _ (by simpa using hslash)]
  simp only [hlow]

/-- a name without a slash is the part after the last one -/
theorem append_slash_inj {x y a b : String} (ha : '/' ∉ a.toList) (hb : '/' ∉ b.toList)
    (h : x ++ "/" ++ a = y ++ "/" ++ b) : x = y ∧ a = b := by
  have hcut : ∀ x a : String, '/' ∉ a.toList →
      cutList ['/'] (x ++ "/" ++ a).toList.reverse = some (a.toList.reverse, x.toList.reverse) := by
    intro x a ha
    rw [← cutList_mid '/' _ _ (by simpa using ha)]
    simp [show ("/" : String).toList = ['/'] from rfl]
  have := (hcut x a ha).symm.trans (h ▸ hcut y b hb)
  simpa [String.toList_inj, and_comm] using this

variable {inv : Inventory} {m : Machine}

theorem eq_singleton {l : List Machine} (hn : l.Nodup) (hm : m ∈ l) (h : ∀ n ∈ l, n = m) : l = [m] :=
  List.perm_singleton.1 ((List.perm_ext_iff_of_nodup hn (List.nodup_singleton m)).2 fun n =>
    ⟨fun hn => List.mem_singleton.2 (h n hn), fun hn => List.mem_singleton.1 hn ▸ hm⟩)

/-- among several machines the others give way to a team-owned one -/
theorem preferTeam_only {l : List Machine} (hn : l.Nodup) (hm : m ∈ l)
    (h : 1 < l.length → ∀ n ∈ l, n = m ∨ m.personalOwner = "" ∧ n.personalOwner ≠ "") : preferTeam l = [m] := by
  unfold preferTeam
  by_cases hlen : 1 < l.length
  · by_cases hp : m.personalOwner = ""
    · have hteam : (l.filter fun m => m.personalOwner = "") = [m] := by
        refine eq_singleton (hn.filter _) (List.mem_filter.2 ⟨hm, by simpa using hp⟩) fun n hn => ?_
        rw [List.mem_filter, decide_eq_true_eq] at hn
        exact (h hlen n hn.1).resolve_right fun hr => hr.2 hn.2
      simp [hteam, hlen]
    · simp [eq_singleton hn hm fun n hn => (h hlen n hn).resolve_right fun hr => hp hr.1]
  · obtain ⟨a, rfl⟩ := List.length_eq_one_iff.1 (le_antisymm (not_lt.1 hlen) (List.length_pos_of_mem hm))
    simp [List.mem_singleton.1 hm]

variable (h : inv.Distinct u)

include h

/-- a machine is team-owned and has its alias only, or its name with the email of its owner in front -/
theorem qualified_cases (hm : m ∈ inv.machines) : m.personalOwner = "" ∧ (newIndex u inv).qualified u m = "" ∨
    ∃ o ∈ inv.members, o.accountID = m.personalOwner ∧
      (newIndex u inv).qualified u m = toLower u o.email ++ "/" ++ m.aliasName := by
  unfold qualified qualifiedIn
  by_cases hp : m.personalOwner = ""
  · exact .inl ⟨hp, by split <;> simp [hp]⟩
  · obtain ⟨o, ho⟩ := Option.isSome_iff_exists.1 (lastWith_isSome.2 (h.owners m hm hp))
    refine .inr ⟨o, (lastWith_mem ho).1, (lastWith_mem ho).2, ?_⟩
    rw [show (newIndex u inv).byAccount m.personalOwner = some o from ho]
    exact if_pos hp

theorem qualified_slash {n : Machine} (hm : m ∈ inv.machines) (hn : n ∈ inv.machines)
    (hq : (newIndex u inv).qualified u n ≠ "") : m.aliasName ≠ (newIndex u inv).qualified u n := by
  intro he
  have hslash := h.slash m hm
  rcases qualified_cases h hn with ⟨_, hnone⟩ | ⟨o, _, _, hqn⟩
  · exact hq hnone
  · simp [he, hqn] at hslash

/-- a machine has a name once: its alias holds no slash, its qualified name does -/
theorem byName_nodup (name : String) : ((newIndex u inv).byName name).Nodup := by
  refine List.nodup_flatMap.2 ⟨fun m hm => ?_, (h.ids.of_map _).imp_of_mem fun {a b} _ _ hab c ha hb => ?_⟩
  · split_ifs with h1 h2 h2
    · exact absurd (h1.trans h2.2.symm) (qualified_slash h hm hm h2.1)
    all_goals simp
  · simp only [List.mem_append, List.mem_ite_nil_right, List.mem_singleton] at ha hb
    exact hab ((ha.elim And.right And.right).symm.trans (hb.elim And.right And.right))

/-- a name resolves to its only machine, or to the only team-owned one -/
theorem machine_of_only {name : String} (hf : foldOwner u name = name) (hm : m ∈ (newIndex u inv).byName name)
    (honly : 1 < ((newIndex u inv).byName name).length → ∀ n ∈ (newIndex u inv).byName name,
      n = m ∨ m.personalOwner = "" ∧ n.personalOwner ≠ "") : (newIndex u inv).machine u name = .ok m := by
  rw [machine, hf, preferTeam_only (byName_nodup h name) hm honly]

end

/-- **Printed names resolve.** Where the names of an inventory tell its machines apart, resolving the printed name of a
machine gives that machine, so no two machines print alike. -/
theorem machineName_resolves (u : Unicode) (inv : Inventory) (h : inv.Distinct u) :
    (∀ m ∈ inv.machines, (newIndex u inv).machine u ((newIndex u inv).machineName u m) = .ok m) ∧
    ∀ m ∈ inv.machines, ∀ n ∈ inv.machines,
      (newIndex u inv).machineName u m = (newIndex u inv).machineName u n → m = n := by
  have hall : ∀ m ∈ inv.machines, (newIndex u inv).machine u ((newIndex u inv).machineName u m) = .ok m := by
    intro m hm
    unfold machineName
    split_ifs with hname
    · obtain ⟨_, hq⟩ := hname
      obtain ⟨_, hnone⟩ | ⟨o, ho, hacc, hqm⟩ := qualified_cases h hm
      · exact absurd hnone hq
      refine machine_of_only h (by rw [hqm, foldOwner_lower]) (mem_byName.2 ⟨hm, .inr ⟨hq, rfl⟩⟩) fun _ n hn => .inl ?_
      obtain ⟨hn, he | ⟨hqn, he⟩⟩ := mem_byName.1 hn
      · exact absurd he (qualified_slash h hn hm hq)
      · -- the same text: the same alias after the last slash, and the same owner before it
        obtain ⟨_, hnone⟩ | ⟨o', ho', hacc', hqn'⟩ := qualified_cases h hn
        · exact absurd hnone hqn
        obtain ⟨hmail, hal⟩ := append_slash_inj (h.slash n hn) (h.slash m hm) (hqn'.symm.trans (he.trans hqm))
        have hoo := List.inj_on_of_nodup_map h.emails ho' ho hmail
        exact h.aliases n hn m hm (by rw [← hacc', ← hacc, hoo]) hal
    · refine machine_of_only h (by rw [foldOwner, cut_none rfl _ (h.slash m hm)]) (mem_byName.2 ⟨hm, .inl rfl⟩)
        fun hlen n hn => ?_
      obtain ⟨hn, he | ⟨hq, he⟩⟩ := mem_byName.1 hn
      · -- several machines have the alias and no qualified name is printed, so this one is the team's
        obtain ⟨hp, _⟩ | ⟨o, _, _, hqm⟩ := qualified_cases h hm
        · by_cases hpn : n.personalOwner = ""
          · exact .inl (h.aliases n hn m hm (hpn.trans hp.symm) he)
          · exact .inr ⟨hp, hpn⟩
        · exact absurd ⟨hlen, by simp [hqm]⟩ hname
      · exact absurd he.symm (qualified_slash h hm hn hq)
  refine ⟨hall, fun m hm n hn he => ?_⟩
  have := hall m hm
  rw [he, hall n hn] at this
  exact (Except.ok.inj this).symm

/-- three machines called db: the team's, and one of each member -/
def threeTeam : Inventory :=
  { team := true, teamID := "t1", members := [⟨"a1", "Ann@x.io", "owner"⟩, ⟨"a2", "bob@x.io", "member"⟩]
    machines := [⟨"m1", "db", ""⟩, ⟨"m2", "db", "a1"⟩, ⟨"m3", "db", "a2"⟩], resources := [], tokens := [] }

theorem threeTeam_resolves : (newIndex ascii threeTeam).machineName ascii ⟨"m2", "db", "a1"⟩ = "ann@x.io/db" ∧
    (newIndex ascii threeTeam).machine ascii ((newIndex ascii threeTeam).machineName ascii ⟨"m2", "db", "a1"⟩) =
      .ok ⟨"m2", "db", "a1"⟩ :=
  ⟨by decide +kernel, (machineName_resolves ascii threeTeam
    ⟨by decide, by decide +kernel, by decide +kernel, by decide, by decide⟩).1 _ (by decide)⟩

end Paperboat.Policy
