import Mathlib.Data.Finset.Card
import CodeListing.Listing.Transcript

/-!
# Styles that are remembered

A cache that has answered as the stylist does goes on to do so (`resolve_of_sound`).  One that was
empty to begin with remembers just the stacks that it has been asked for, each by itself:
`Remembers` says what it holds then, `Remembers.resolve` that one request more keeps it, and
`resolveAll_remembers` what comes of any requests.
-/

namespace CodeListing.StyleCache

variable {stylist : Stylist} {c : StyleCache}

/-! ## Sound caches -/

/-- The cache answers as the stylist does. -/
def Sound (stylist : Stylist) (c : StyleCache) : Prop :=
  ∀ scopes pair, c.entries[scopes]? = some pair → pair = stylist.style scopes

theorem sound_empty (stylist : Stylist) : empty.Sound stylist := by
  intro scopes pair found
  simp [empty] at found

/-- A sound cache answers as the stylist does, from its entries or by asking, and stays sound. -/
theorem resolve_of_sound (sound : c.Sound stylist) (scopes : List String) :
    (c.resolve stylist scopes).1 = stylist.style scopes ∧
      (c.resolve stylist scopes).2.Sound stylist := by
  unfold resolve
  split
  · next pair found => exact ⟨sound scopes pair found, sound⟩
  · refine ⟨rfl, fun others pair found => ?_⟩
    simp only [Std.HashMap.getElem?_insert] at found
    split at found
    · next same =>
      obtain rfl := eq_of_beq same
      exact (Option.some.inj found).symm
    · exact sound others pair found

/-- The fragments of a line get the styles of the stylist, through any sound cache. -/
theorem styleFragments_of_sound (sound : c.Sound stylist)
    (fragments : List (Fragment (List String))) :
    (c.styleFragments stylist fragments).1 =
      fragments.map (fun f => ⟨f.code, stylist.style f.tag⟩) ∧
      (c.styleFragments stylist fragments).2.Sound stylist := by
  induction fragments generalizing c with
  | nil => exact ⟨rfl, sound⟩
  | cons f fragments ih =>
    obtain ⟨found, kept⟩ := resolve_of_sound sound f.tag
    obtain ⟨rest, kept⟩ := ih kept
    exact ⟨by simp [styleFragments, found, rest], kept⟩

/-- Sound caches give all lines the same styles, and stay sound. -/
theorem styleLines_of_sound (sound : c.Sound stylist) (lines : List (ListingLine (List String))) :
    (c.styleLines stylist lines).1 =
        lines.map (fun l => ⟨l.note, l.fragments.map fun f => ⟨f.code, stylist.style f.tag⟩⟩) ∧
      (c.styleLines stylist lines).2.Sound stylist := by
  induction lines generalizing c with
  | nil => exact ⟨rfl, sound⟩
  | cons l lines ih =>
    obtain ⟨fragments, kept⟩ := styleFragments_of_sound sound l.fragments
    obtain ⟨rest, kept⟩ := ih kept
    exact ⟨by simp [styleLines, fragments, rest], kept⟩

/-! ## What is remembered -/

/-- The cache holds the styles of the stacks that were asked for, and of no others.  Stacks are told
apart as lists: two that are written alike when their scopes are put together are two. -/
structure Remembers (stylist : Stylist) (asked : List (List String)) (c : StyleCache) : Prop where
  entries : ∀ scopes,
    c.entries[scopes]? = if scopes ∈ asked then some (stylist.style scopes) else none
  size : c.size = asked.toFinset.card
  isEmpty : c.isEmpty = true ↔ asked = []

variable {asked : List (List String)}

theorem remembers_empty (stylist : Stylist) : empty.Remembers stylist [] := by
  constructor <;> simp [empty, StyleCache.size, StyleCache.isEmpty]

/-- What is remembered is what the stylist has said. -/
theorem Remembers.sound (remembers : c.Remembers stylist asked) : c.Sound stylist := by
  intro scopes pair found
  rw [remembers.entries] at found
  split at found
  · exact (Option.some.inj found).symm
  · cases found

/-- A stack that was asked for before is not remembered twice. -/
theorem Remembers.again (remembers : c.Remembers stylist asked) {scopes : List String}
    (known : scopes ∈ asked) : c.Remembers stylist (asked ++ [scopes]) := by
  have same : ∀ stack, stack ∈ asked ++ [scopes] ↔ stack ∈ asked := by
    intro stack
    rw [List.mem_append, List.mem_singleton]
    exact or_iff_left_of_imp fun same => same ▸ known
  constructor
  · intro stack
    simp only [same, remembers.entries]
  · rw [remembers.size]
    congr 1
    ext stack
    rw [List.mem_toFinset, List.mem_toFinset, same]
  · rw [remembers.isEmpty]
    exact iff_of_false (List.ne_nil_of_mem known) (by simp)

/-- A stack that was not asked for before has an entry of its own. -/
theorem Remembers.insert (remembers : c.Remembers stylist asked) {scopes : List String}
    (unknown : scopes ∉ asked) :
    Remembers stylist (asked ++ [scopes]) ⟨c.entries.insert scopes (stylist.style scopes)⟩ := by
  have absent : scopes ∉ c.entries := by
    rw [Std.HashMap.mem_iff_isSome_getElem?, remembers.entries, if_neg unknown]
    exact Bool.false_ne_true
  constructor
  · intro stack
    rw [Std.HashMap.getElem?_insert, remembers.entries]
    by_cases same : scopes = stack
    · simp [same]
    · simp [same, Ne.symm same]
  · have size : c.entries.size = asked.toFinset.card := remembers.size
    have fresh : scopes ∉ asked.toFinset := by rwa [List.mem_toFinset]
    rw [StyleCache.size, Std.HashMap.size_insert, if_neg absent, size, List.toFinset_append,
      List.toFinset_cons, List.toFinset_nil, insert_empty_eq, Finset.union_comm,
      ← Finset.insert_eq, Finset.card_insert_of_notMem fresh]
  · simp [StyleCache.isEmpty]

/-- One request more is answered as by the stylist, and then remembered. -/
theorem Remembers.resolve (remembers : c.Remembers stylist asked) (scopes : List String) :
    (c.resolve stylist scopes).1 = stylist.style scopes ∧
      (c.resolve stylist scopes).2.Remembers stylist (asked ++ [scopes]) := by
  refine ⟨(resolve_of_sound remembers.sound scopes).1, ?_⟩
  have found := remembers.entries scopes
  unfold StyleCache.resolve
  by_cases known : scopes ∈ asked
  · rw [if_pos known] at found
    rw [found]
    exact remembers.again known
  · rw [if_neg known] at found
    rw [found]
    exact remembers.insert known

/-- The answers to requests for stacks one after the other, each with the cache behind it. -/
def resolveAll (stylist : Stylist) (c : StyleCache) :
    List (List String) → List (StylePair × StyleCache)
  | [] => []
  | scopes :: requests =>
    c.resolve stylist scopes :: (c.resolve stylist scopes).2.resolveAll stylist requests

/-- After each request of a list exactly the stacks asked so far are remembered; by induction on the
list, one request at a time. -/
theorem Remembers.resolveAll (remembers : c.Remembers stylist asked)
    (requests : List (List String)) :
    (c.resolveAll stylist requests).map (·.1) = requests.map stylist.style ∧
      ∀ place pair c', (c.resolveAll stylist requests)[place]? = some (pair, c') →
        Remembers stylist (asked ++ requests.take (place + 1)) c' := by
  induction requests generalizing c asked with
  | nil => exact ⟨rfl, fun place pair c' found => by cases found⟩
  | cons scopes requests ih =>
    obtain ⟨answer, next⟩ := remembers.resolve scopes
    obtain ⟨answers, later⟩ := ih next
    refine ⟨?_, fun place pair c' found => ?_⟩
    · rw [StyleCache.resolveAll, List.map_cons, List.map_cons, answer, answers]
    · rw [StyleCache.resolveAll] at found
      cases place with
      | zero =>
        obtain rfl := (Prod.mk.inj (Option.some.inj found)).2
        exact next
      | succ place =>
        have held := later place pair c' found
        rwa [List.append_assoc] at held

/-- **What is remembered is not seen.**  Whatever stacks a cache is asked for, some again and again,
every answer is the one that is worked out afresh.  Behind each request the cache holds the styles
of the stacks asked for so far, as many as there are different ones, and nothing for any other
stack. -/
theorem resolveAll_remembers (stylist : Stylist) (requests : List (List String)) :
    (empty.resolveAll stylist requests).map (·.1) = requests.map stylist.style ∧
      empty.Remembers stylist [] ∧
      ∀ place pair c, (empty.resolveAll stylist requests)[place]? = some (pair, c) →
        Remembers stylist (requests.take (place + 1)) c := by
  obtain ⟨answers, later⟩ := (remembers_empty stylist).resolveAll requests
  exact ⟨answers, remembers_empty stylist, later⟩

/-- Scopes that are cut in another way, or stand in another order, make another stack. -/
theorem resolveAll_remembers_apart :
    let stylist : Stylist := ⟨fun scopes => scopes.map fun _ => { font := some .bold }, fun _ => []⟩
    let requests := [["a", "b"], ["a b"], ["a"], ["b", "a"], ["a", "b"]]
    ∃ pair c, (empty.resolveAll stylist requests)[4]? = some (pair, c) ∧
      pair = stylist.style ["a", "b"] ∧ c.size = 4 ∧ c.isEmpty = false ∧
      c.entries[["a b"]]? = some (stylist.style ["a b"]) ∧ c.entries[["b"]]? = none := by
  intro stylist requests
  obtain ⟨answers, -, later⟩ := resolveAll_remembers stylist requests
  have last : ((empty.resolveAll stylist requests).map (·.1))[4]? =
      some (stylist.style ["a", "b"]) := by
    rw [answers]
    rfl
  rw [List.getElem?_map] at last
  obtain ⟨⟨pair, c⟩, found, answer⟩ := Option.map_eq_some_iff.1 last
  have remembers := later 4 pair c found
  have asked : requests.take 5 ≠ [] := by decide
  refine ⟨pair, c, found, answer, ?_, ?_, ?_, ?_⟩
  · rw [remembers.size]
    decide
  · exact Bool.eq_false_iff.2 fun none => asked (remembers.isEmpty.1 none)
  · rw [remembers.entries, if_pos (by decide)]
  · rw [remembers.entries, if_neg (by decide)]

end CodeListing.StyleCache
