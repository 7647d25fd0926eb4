import GeneratorKit.Diagnostics.Cache
import GeneratorKit.Proofs.Diagnostics.Equality
import Mathlib.Data.List.Induction

set_option autoImplicit false

/-!
# What a cache remembers

A cache is compared with the list of changes that led to it. A key is live when the changes since its last
update have not dropped it, and its place is decided by the update with which it last came in. The main
statement, `remembers_replay`, is that every answer of a cache can be read off that list.
-/
namespace GeneratorKit.Diagnostics.Cache
variable {κ α : Type}

inductive Change (κ α : Type) where
  | update (k : κ) (o : Outcome α)
  | remove (k : κ)
  | retain (keep : κ → Bool)

/-- An update of `k` follows the changes `before`, and none of the changes after it is an end. -/
def Stands (ends : Change κ α → Bool) (es before : List (Change κ α)) (k : κ) (o : Outcome α) : Prop :=
  ∃ after, es = before ++ .update k o :: after ∧ ∀ e ∈ after, ends e = false

theorem stands_concat {ends : Change κ α → Bool} {es before : List (Change κ α)} {k : κ} {o : Outcome α}
    {e : Change κ α} : Stands ends (es ++ [e]) before k o ↔
      (before = es ∧ e = .update k o) ∨ (Stands ends es before k o ∧ ends e = false) := by
  constructor
  · rintro ⟨after, h, hends⟩
    rcases List.eq_nil_or_concat after with rfl | ⟨after, d, rfl⟩
    · obtain ⟨hb, he⟩ := List.append_inj' h rfl
      exact .inl ⟨hb.symm, List.singleton_inj.1 he⟩
    · have h' : es ++ [e] = (before ++ .update k o :: after) ++ [d] := by simpa using h
      obtain ⟨hb, he⟩ := List.append_inj' h' rfl
      obtain rfl := List.singleton_inj.1 he
      exact .inr ⟨⟨after, hb, fun d hd => hends d (by simp [hd])⟩, hends e (by simp)⟩
  · rintro (⟨rfl, rfl⟩ | ⟨⟨after, rfl, hends⟩, he⟩)
    · exact ⟨[], rfl, by simp⟩
    · refine ⟨after ++ [e], by simp, fun d hd => ?_⟩
      rcases List.mem_append.1 hd with hd | hd
      · exact hends d hd
      · exact List.mem_singleton.1 hd ▸ he

variable [DecidableEq κ] {es : List (Change κ α)} {e : Change κ α} {k : κ}

namespace Change

def updates (k : κ) : Change κ α → Bool
  | .update j _ => j = k
  | _ => false

def drops (k : κ) : Change κ α → Bool
  | .update _ _ => false
  | .remove j => j = k
  | .retain keep => !keep k

theorem updates_iff : e.updates k = true ↔ ∃ o, e = .update k o := by
  cases e <;> simp [updates]

theorem drops_of_updates (h : e.updates k = true) : e.drops k = false := by
  obtain ⟨o, rfl⟩ := updates_iff.1 h
  rfl

end Change

/-- The most recent update of `k` has brought `o`, and no later change has dropped `k`. -/
def Last (es : List (Change κ α)) (k : κ) (o : Outcome α) : Prop :=
  ∃ before, Stands (fun e => e.updates k || e.drops k) es before k o

def Live (es : List (Change κ α)) (k : κ) : Prop := ∃ o, Last es k o

/-- The change at place `n` has made `k` live, and no later change has dropped it. -/
def Began (es : List (Change κ α)) (k : κ) (n : Nat) : Prop :=
  ∃ before o, Stands (·.drops k) es before k o ∧ ¬ Live before k ∧ before.length = n

theorem not_live_nil (k : κ) : ¬ Live ([] : List (Change κ α)) k := by
  rintro ⟨o, before, after, h, _⟩
  simp at h

theorem last_concat {o : Outcome α} : Last (es ++ [e]) k o ↔
    e = .update k o ∨ (Last es k o ∧ e.updates k = false ∧ e.drops k = false) := by
  simp only [Last, stands_concat, Bool.or_eq_false_iff]
  constructor
  · rintro ⟨before, ⟨rfl, he⟩ | ⟨h, hends⟩⟩
    · exact .inl he
    · exact .inr ⟨⟨before, h⟩, hends⟩
  · rintro (he | ⟨⟨before, h⟩, hends⟩)
    · exact ⟨es, .inl ⟨rfl, he⟩⟩
    · exact ⟨before, .inr ⟨h, hends⟩⟩

theorem live_concat : Live (es ++ [e]) k ↔
    e.updates k = true ∨ (Live es k ∧ e.drops k = false) := by
  simp only [Live, last_concat]
  constructor
  · rintro ⟨o, he | ⟨h, _, hd⟩⟩
    · exact .inl (Change.updates_iff.2 ⟨o, he⟩)
    · exact .inr ⟨⟨o, h⟩, hd⟩
  · intro h
    cases hu : e.updates k with
    | true =>
      obtain ⟨o, he⟩ := Change.updates_iff.1 hu
      exact ⟨o, .inl he⟩
    | false =>
      obtain ⟨⟨o, h⟩, hd⟩ := h.resolve_left (by simp [hu])
      exact ⟨o, .inr ⟨h, rfl, hd⟩⟩

theorem began_concat {n : Nat} : Began (es ++ [e]) k n ↔
    (n = es.length ∧ ¬ Live es k ∧ e.updates k = true) ∨ (Began es k n ∧ e.drops k = false) := by
  simp only [Began, stands_concat, Change.updates_iff]
  constructor
  · rintro ⟨before, o, ⟨rfl, he⟩ | ⟨h, hd⟩, hl, hn⟩
    · exact .inl ⟨hn.symm, hl, o, he⟩
    · exact .inr ⟨⟨before, o, h, hl, hn⟩, hd⟩
  · rintro (⟨hn, hl, o, he⟩ | ⟨⟨before, o, h, hl, hn⟩, hd⟩)
    · exact ⟨es, o, .inl ⟨rfl, he⟩, hl, hn.symm⟩
    · exact ⟨before, o, .inr ⟨h, hd⟩, hl, hn⟩

theorem Last.unique {o p : Outcome α} (ho : Last es k o) (hp : Last es k p) : o = p := by
  induction es using List.reverseRecOn with
  | nil => exact absurd ⟨o, ho⟩ (not_live_nil k)
  | append_singleton es e ih =>
    rcases last_concat.1 ho with rfl | ⟨ho, hu, _⟩
    · rcases last_concat.1 hp with he | ⟨_, hu, _⟩
      · injection he
      · simp [Change.updates] at hu
    · rcases last_concat.1 hp with rfl | ⟨hp, _, _⟩
      · simp [Change.updates] at hu
      · exact ih ho hp

theorem Last.exists_iff {p : Outcome α} (h : Last es k p) (P : Outcome α → Prop) :
    (∃ q, Last es k q ∧ P q) ↔ P p := by
  constructor
  · rintro ⟨q, hq, hP⟩
    exact h.unique hq ▸ hP
  · intro hP
    exact ⟨p, h, hP⟩

theorem Began.lt {n : Nat} (h : Began es k n) : n < es.length := by
  obtain ⟨before, o, ⟨after, rfl, _⟩, _, rfl⟩ := h
  simp

theorem Began.live {n : Nat} (h : Began es k n) : Live es k := by
  induction es using List.reverseRecOn with
  | nil => exact absurd h.lt (by simp)
  | append_singleton es e ih =>
    rcases began_concat.1 h with ⟨_, _, hu⟩ | ⟨h, hd⟩
    · exact live_concat.2 (.inl hu)
    · exact live_concat.2 (.inr ⟨ih h, hd⟩)

theorem Began.unique {m n : Nat} (hm : Began es k m) (hn : Began es k n) : m = n := by
  induction es using List.reverseRecOn with
  | nil => exact absurd hm.lt (by simp)
  | append_singleton es e ih =>
    rcases began_concat.1 hm with ⟨hm, hl, _⟩ | ⟨hm, _⟩
    · rcases began_concat.1 hn with ⟨hn, _⟩ | ⟨hn, _⟩
      · rw [hm, hn]
      · exact absurd hn.live hl
    · rcases began_concat.1 hn with ⟨_, hl, _⟩ | ⟨hn, _⟩
      · exact absurd hm.live hl
      · exact ih hm hn

theorem Live.began (h : Live es k) : ∃ n, Began es k n := by
  induction es using List.reverseRecOn with
  | nil => exact absurd h (not_live_nil k)
  | append_singleton es e ih =>
    by_cases hl : Live es k
    · obtain ⟨n, hn⟩ := ih hl
      exact ⟨n, began_concat.2 (.inr ⟨hn, (live_concat.1 h).elim Change.drops_of_updates And.right⟩)⟩
    · have hu : e.updates k = true := (live_concat.1 h).resolve_right fun h => hl h.1
      exact ⟨es.length, began_concat.2 (.inl ⟨rfl, hl, hu⟩)⟩

variable [BEq α] {c : Cache κ α}

def apply (c : Cache κ α) : Change κ α → Cache κ α
  | .update k o => (c.update k o).2
  | .remove k => (c.remove k).2
  | .retain keep => c.retain keep

/-- The cache that changes lead to from an empty one. -/
def replay (es : List (Change κ α)) : Cache κ α := es.foldl apply OrderedMap.empty

theorem replay_concat (es : List (Change κ α)) (e : Change κ α) :
    replay (es ++ [e]) = (replay es).apply e := by
  simp [replay]

theorem update_cases (c : Cache κ α) (k : κ) (o : Outcome α) :
    (c.get? k = none ∧ c.update k o = (.added, c.insert k o)) ∨
    (∃ kept, c.get? k = some kept ∧ (kept == o) = true ∧ c.update k o = (.unchanged, c)) ∨
    (∃ kept, c.get? k = some kept ∧ (kept == o) = false ∧ c.update k o = (.modified, c.insert k o)) := by
  rw [update]
  cases hk : OrderedMap.get? c k with
  | none => exact .inl ⟨rfl, rfl⟩
  | some kept =>
    cases hb : kept == o with
    | true => exact .inr (.inl ⟨kept, rfl, hb, by simp [hb]⟩)
    | false => exact .inr (.inr ⟨kept, rfl, hb, by simp [hb]⟩)

theorem get?_apply_of_drops (h : e.drops k = true) : (c.apply e).get? k = none := by
  cases e with
  | update j o => cases h
  | remove j =>
    rw [apply, remove, OrderedMap.get?_erase, if_pos (of_decide_eq_true h)]
  | retain keep =>
    rw [apply, retain, OrderedMap.get?_filterKeys, if_neg (by simpa [Change.drops] using h)]

theorem get?_apply_of_other (hu : e.updates k = false) (hd : e.drops k = false) :
    (c.apply e).get? k = c.get? k := by
  cases e with
  | update j o =>
    have hj : ¬ j = k := of_decide_eq_false hu
    rcases update_cases c j o with ⟨_, he⟩ | ⟨_, _, _, he⟩ | ⟨_, _, _, he⟩
    · rw [apply, he, OrderedMap.get?_insert, if_neg hj]
    · rw [apply, he]
    · rw [apply, he, OrderedMap.get?_insert, if_neg hj]
  | remove j =>
    rw [apply, remove, OrderedMap.get?_erase, if_neg (of_decide_eq_false hd)]
  | retain keep =>
    rw [apply, retain, OrderedMap.get?_filterKeys, if_pos (by simpa [Change.drops] using hd)]

theorem get?_apply_update [EquivBEq α] (c : Cache κ α) (k : κ) (o : Outcome α) :
    ∃ kept, (c.apply (.update k o)).get? k = some kept ∧ kept == o := by
  rcases update_cases c k o with ⟨_, he⟩ | ⟨kept, hk, hb, he⟩ | ⟨_, _, _, he⟩
  · refine ⟨o, ?_, BEq.rfl⟩
    rw [apply, he, OrderedMap.get?_insert, if_pos rfl]
  · refine ⟨kept, ?_, hb⟩
    rw [apply, he, hk]
  · refine ⟨o, ?_, BEq.rfl⟩
    rw [apply, he, OrderedMap.get?_insert, if_pos rfl]

/-- A change keeps the order of the keys that it does not drop, and an update may add its key behind them. -/
theorem keys_apply (c : Cache κ α) (e : Change κ α) :
    (c.apply e).keys = c.keys.filter (fun k => !e.drops k) ∨
    ∃ k, k ∉ c.keys ∧ (c.apply e).keys = c.keys.filter (fun k => !e.drops k) ++ [k] := by
  cases e with
  | update k o =>
    have hall : c.keys.filter (fun j => !(Change.update k o).drops j) = c.keys := by
      simp [Change.drops]
    rw [hall, apply]
    rcases update_cases c k o with ⟨hk, he⟩ | ⟨_, _, _, he⟩ | ⟨kept, hk, _, he⟩
    · have hm : k ∉ c.keys := by rw [← OrderedMap.isSome_get?, hk]; simp
      exact .inr ⟨k, hm, by rw [he, OrderedMap.keys_insert, if_neg hm]⟩
    · exact .inl (by rw [he])
    · have hm : k ∈ c.keys := by rw [← OrderedMap.isSome_get?, hk]; rfl
      exact .inl (by rw [he, OrderedMap.keys_insert, if_pos hm])
  | remove k =>
    refine .inl ?_
    rw [apply, remove, OrderedMap.keys, OrderedMap.keys, List.filter_map]
    simp [OrderedMap.erase, OrderedMap.filterKeys, Change.drops, Function.comp_def, eq_comm]
  | retain keep =>
    refine .inl ?_
    rw [apply, retain, OrderedMap.keys, OrderedMap.keys, List.filter_map]
    simp [OrderedMap.filterKeys, Change.drops, Function.comp_def]

/-- What may be found under a key: nothing unless it is live, and then an outcome equal to the last one. -/
inductive Kept (es : List (Change κ α)) (k : κ) : Option (Outcome α) → Prop where
  | none (h : ¬ Live es k) : Kept es k none
  | some {o kept : Outcome α} (h : Last es k o) (he : kept == o) : Kept es k (some kept)

theorem Kept.isSome {r : Option (Outcome α)} (h : Kept es k r) : r.isSome = true ↔ Live es k := by
  cases h with
  | none h => simp [h]
  | some h he => exact iff_of_true rfl ⟨_, h⟩

theorem Kept.apply [EquivBEq α] (h : Kept es k (c.get? k)) (e : Change κ α) :
    Kept (es ++ [e]) k ((c.apply e).get? k) := by
  cases hu : e.updates k with
  | true =>
    obtain ⟨o, rfl⟩ := Change.updates_iff.1 hu
    obtain ⟨kept, hk, hb⟩ := get?_apply_update c k o
    rw [hk]
    exact .some (last_concat.2 (.inl rfl)) hb
  | false =>
    cases hd : e.drops k with
    | true =>
      rw [get?_apply_of_drops hd]
      exact .none fun hl => by simpa [hu, hd] using live_concat.1 hl
    | false =>
      rw [get?_apply_of_other hu hd]
      cases hg : c.get? k with
      | none =>
        rw [hg] at h
        cases h with
        | none h => exact .none fun hl => h (by simpa [hu, hd] using live_concat.1 hl)
      | some kept =>
        rw [hg] at h
        cases h with
        | some h he => exact .some (last_concat.2 (.inr ⟨h, hu, hd⟩)) he

/-- Keys in the order in which they last became live. -/
def InOrder (es : List (Change κ α)) (ks : List κ) : Prop :=
  ks.Pairwise fun j k => ∀ m n, Began es j m → Began es k n → m < n

theorem InOrder.apply (hlive : ∀ k, k ∈ c.keys ↔ Live es k) (h : InOrder es c.keys)
    (e : Change κ α) : InOrder (es ++ [e]) (c.apply e).keys := by
  have hold : ∀ {k n}, k ∈ c.keys → Began (es ++ [e]) k n → Began es k n := by
    intro k n hk hb
    rcases began_concat.1 hb with ⟨_, hl, _⟩ | ⟨hb, _⟩
    · exact absurd ((hlive k).1 hk) hl
    · exact hb
  have hkeys : InOrder (es ++ [e]) (c.keys.filter fun k => !e.drops k) :=
    (h.imp_of_mem fun hj hk hjk m n hm hn => hjk m n (hold hj hm) (hold hk hn)).sublist
      List.filter_sublist
  rcases keys_apply c e with he | ⟨k, hk, he⟩
  · rw [he]
    exact hkeys
  · rw [he]
    refine List.pairwise_append.2 ⟨hkeys, List.pairwise_singleton _ k, ?_⟩
    intro j hj i hi m n hm hn
    obtain rfl := List.mem_singleton.1 hi
    have hlast : n = es.length := by
      rcases began_concat.1 hn with ⟨hn, _⟩ | ⟨hb, _⟩
      · exact hn
      · exact absurd ((hlive i).2 hb.live) hk
    rw [hlast]
    exact (hold (List.mem_filter.1 hj).1 hm).lt

/-- What a cache answers, in terms of the changes that led to it. -/
structure Remembers (es : List (Change κ α)) (c : Cache κ α) : Prop where
  get (k : κ) : Kept es k (c.get? k)
  removed (k : κ) : Kept es k (c.remove k).1
  added (k : κ) (o : Outcome α) : (c.update k o).1 = .added ↔ ¬ Live es k
  unchanged (k : κ) (o : Outcome α) : (c.update k o).1 = .unchanged ↔ ∃ p, Last es k p ∧ o == p
  modified (k : κ) (o : Outcome α) :
    (c.update k o).1 = .modified ↔ ∃ p, Last es k p ∧ (o == p) = false
  others (e : Change κ α) (k : κ) : e.updates k = false → e.drops k = false →
    (c.apply e).get? k = c.get? k
  nodup : c.keys.Nodup
  live (k : κ) : k ∈ c.keys ↔ Live es k
  size : c.size = c.keys.length
  outcomes : c.outcomes.map some = c.keys.map c.get?
  began (k : κ) : k ∈ c.keys → ∃! n, Began es k n
  order : InOrder es c.keys
  stays (e : Change κ α) : c.keys.filter (fun k => !e.drops k) <+: (c.apply e).keys

theorem Kept.last [EquivBEq α] {kept : Outcome α} (h : Kept es k (Option.some kept)) :
    ∃ p, Last es k p ∧ ∀ o, (kept == o) = (o == p) := by
  cases h with
  | some h he => exact ⟨_, h, fun o => (BEq.congr_left he).trans BEq.comm⟩

/-- How a new outcome is called, by what was last brought under its key. -/
theorem Kept.update_iff [EquivBEq α] (h : Kept es k (c.get? k)) (o : Outcome α) :
    ((c.update k o).1 = .added ↔ ¬ Live es k) ∧
    ((c.update k o).1 = .unchanged ↔ ∃ p, Last es k p ∧ o == p) ∧
    ((c.update k o).1 = .modified ↔ ∃ p, Last es k p ∧ (o == p) = false) := by
  rcases update_cases c k o with ⟨hk, he⟩ | ⟨kept, hk, hb, he⟩ | ⟨kept, hk, hb, he⟩
  · rw [hk] at h
    have hl : ¬ Live es k := fun hl => by simpa using h.isSome.2 hl
    rw [he]
    exact ⟨iff_of_true rfl hl, iff_of_false Freshness.noConfusion fun ⟨p, hp, _⟩ => hl ⟨p, hp⟩,
      iff_of_false Freshness.noConfusion fun ⟨p, hp, _⟩ => hl ⟨p, hp⟩⟩
  · rw [hk] at h
    obtain ⟨p, hp, hbeq⟩ := h.last
    rw [he, hp.exists_iff, hp.exists_iff, ← hbeq o, hb]
    exact ⟨iff_of_false Freshness.noConfusion fun hl => hl ⟨p, hp⟩, iff_of_true rfl rfl,
      iff_of_false Freshness.noConfusion Bool.noConfusion⟩
  · rw [hk] at h
    obtain ⟨p, hp, hbeq⟩ := h.last
    rw [he, hp.exists_iff, hp.exists_iff, ← hbeq o, hb]
    exact ⟨iff_of_false Freshness.noConfusion fun hl => hl ⟨p, hp⟩,
      iff_of_false Freshness.noConfusion Bool.noConfusion, iff_of_true rfl rfl⟩

theorem mem_keys_iff_live [EquivBEq α] (h : Kept es k (c.get? k)) : k ∈ c.keys ↔ Live es k :=
  (OrderedMap.isSome_get? c k).symm.trans h.isSome

theorem kept_replay [EquivBEq α] (es : List (Change κ α)) (k : κ) : Kept es k ((replay es).get? k) := by
  induction es using List.reverseRecOn with
  | nil => exact .none (not_live_nil k)
  | append_singleton es e ih => exact replay_concat es e ▸ ih.apply e

theorem inOrder_replay [EquivBEq α] (es : List (Change κ α)) : InOrder es (replay es).keys := by
  induction es using List.reverseRecOn with
  | nil => exact .nil
  | append_singleton es e ih =>
    exact replay_concat es e ▸ ih.apply (fun k => mem_keys_iff_live (kept_replay es k)) e

/-- Every answer of a cache can be read off the changes that led to it. -/
theorem remembers_replay [EquivBEq α] (es : List (Change κ α)) : Remembers es (replay es) where
  get := kept_replay es
  removed := kept_replay es
  added k o := ((kept_replay es k).update_iff o).1
  unchanged k o := ((kept_replay es k).update_iff o).2.1
  modified k o := ((kept_replay es k).update_iff o).2.2
  others e k := get?_apply_of_other
  nodup := (replay es).nodup
  live k := mem_keys_iff_live (kept_replay es k)
  size := by simp [OrderedMap.size, OrderedMap.keys]
  outcomes := ((replay es).map_get?_keys).symm
  began k hk := by
    obtain ⟨n, hn⟩ := ((mem_keys_iff_live (kept_replay es k)).1 hk).began
    exact ⟨n, hn, fun m hm => hm.unique hn⟩
  order := inOrder_replay es
  stays e := by
    rcases keys_apply (replay es) e with he | ⟨k, _, he⟩
    · exact ⟨[], by rw [he, List.append_nil]⟩
    · exact ⟨[k], he.symm⟩

/-- A key that was dropped comes in again behind another one, and is then brought the same outcome with its
path spelled in another way. -/
theorem remembers_replay_respelled :
    let moved (path : String) : Outcome String :=
      ⟨some "class A", [(Record.make (.make "G1" "t" "m" "Usage" .warning)).atLocation
        ⟨⟨path⟩, ⟨3, 4⟩, ⟨⟨0, 3⟩, ⟨0, 7⟩⟩⟩]⟩
    let es : List (Change String String) := [.update "a" (.ok "class A"), .update "b" (.ok "class B"),
      .retain (· ≠ "a"), .update "a" (moved "src/a"), .update "b" (.ok "class C")]
    EquivBEq String ∧ Remembers es (replay es) ∧ Last es "a" (moved "src/a") ∧
      ((replay es).update "a" (moved "src//a/.")).1 = .unchanged ∧ (replay es).keys = ["b", "a"] := by
  intro moved es
  have hm : Remembers es (replay es) := remembers_replay es
  have hl : Last es "a" (moved "src/a") :=
    ⟨es.take 3, [.update "b" (.ok "class C")], rfl, by simp [Change.updates, Change.drops]⟩
  have hu := (hm.unchanged "a" (moved "src//a/.")).2 ⟨moved "src/a", hl, by decide +kernel⟩
  exact ⟨inferInstance, hm, hl, hu, by decide +kernel⟩

end GeneratorKit.Diagnostics.Cache
