import FlareAuth.Text.Strings
import Mathlib.Data.List.Infix

/-!
# Comma lists and LIKE patterns

A set of names is stored as one text, joined by commas, and queried with a LIKE
pattern that looks for a name between two commas. For names without commas and
capital letters the pattern finds exactly the names of the list; in general it finds what
resembles the name, where `_` stands for any character.
-/

namespace Text

/-- SQL's LIKE: `%` stands for any text and `_` for one character, and the case of ASCII letters
does not matter. -/
def like : List Char → List Char → Bool
  | [], text => text.isEmpty
  | p :: pattern, text =>
    if p = '%' then text.tails.any (like pattern)
    else
      match text with
      | [] => false
      | c :: text => (p == '_' || p.toLower == c.toLower) && like pattern text

/-- What LIKE compares a character with: `_` with any, and others up to ASCII case. -/
def Resembles (p c : Char) : Prop := p = '_' ∨ p.toLower = c.toLower

instance (p c : Char) : Decidable (Resembles p c) :=
  inferInstanceAs (Decidable (p = '_' ∨ p.toLower = c.toLower))

theorem eq_of_resembles_comma {c : Char} (h : Resembles ',' c) : c = ',' := by
  rcases h with h | h
  · exact absurd h (by decide)
  · have hcomma : (','.toLower) = ',' := by decide
    rw [hcomma] at h
    unfold Char.toLower at h
    split at h
    next hupper =>
      have hlow : 65 ≤ c.val.toNat := hupper.1
      have hhigh : c.val.toNat ≤ 90 := hupper.2
      have hval : (44 : ℕ) = (c.val + ('a'.val - 'A'.val)).toNat :=
        congrArg (fun d : Char => d.val.toNat) h
      rw [UInt32.toNat_add] at hval
      have hshift : ('a'.val - 'A'.val).toNat = 32 := by decide
      omega
    next => exact h.symm

/-- A pattern that begins without `%`. -/
theorem like_append {w : List Char} (h : '%' ∉ w) {pattern text : List Char} :
    like (w ++ pattern) text = true ↔ ∃ u rest, text = u ++ rest ∧
      List.Forall₂ Resembles w u ∧ like pattern rest = true := by
  induction w generalizing text with
  | nil =>
    constructor
    · intro hlike
      exact ⟨[], text, rfl, .nil, hlike⟩
    · rintro ⟨u, rest, rfl, hu, hlike⟩
      cases hu
      exact hlike
  | cons p w ih =>
    rw [List.mem_cons, not_or] at h
    have hp : p ≠ '%' := Ne.symm h.1
    cases text with
    | nil =>
      simp only [List.cons_append, like, if_neg hp, Bool.false_eq_true, false_iff]
      rintro ⟨u, rest, htext, hu, _⟩
      obtain rfl : u = [] := (List.append_eq_nil_iff.mp htext.symm).1
      cases hu
    | cons c text =>
      have hone : (p == '_' || p.toLower == c.toLower) = true ↔ Resembles p c := by
        simp [Resembles]
      simp only [List.cons_append, like, if_neg hp]
      rw [Bool.and_eq_true, hone, ih h.2]
      constructor
      · rintro ⟨hc, u, rest, rfl, hu, hlike⟩
        exact ⟨c :: u, rest, rfl, .cons hc hu, hlike⟩
      · rintro ⟨u, rest, htext, hu, hlike⟩
        cases hu with
        | cons hc hu =>
          obtain ⟨rfl, rfl⟩ := List.cons.inj htext
          exact ⟨hc, _, rest, rfl, hu, hlike⟩

/-- A pattern between two wildcards is looked for anywhere. -/
theorem like_within {w : List Char} (h : '%' ∉ w) {text : List Char} :
    like ('%' :: w ++ ['%']) text = true ↔ ∃ before u rest, text = before ++ u ++ rest ∧
      List.Forall₂ Resembles w u := by
  have hlast : ∀ rest : List Char, like ['%'] rest = true := by
    intro rest
    simp only [like, if_pos, List.any_eq_true, List.mem_tails]
    exact ⟨[], List.nil_suffix, rfl⟩
  have hfirst : like ('%' :: w ++ ['%']) text = text.tails.any (like (w ++ ['%'])) := by
    rw [List.cons_append, like.eq_def]
    exact if_pos rfl
  rw [hfirst]
  simp only [List.any_eq_true, List.mem_tails, like_append h, hlast, and_true]
  constructor
  · rintro ⟨tail, ⟨before, rfl⟩, u, rest, rfl, hu⟩
    exact ⟨before, u, rest, by simp, hu⟩
  · rintro ⟨before, u, rest, rfl, hu⟩
    exact ⟨u ++ rest, ⟨before, by simp⟩, u, rest, rfl, hu⟩

/-- A name between two commas, as a pattern, finds a text between two commas. -/
theorem forall₂_resembles_fence {name u : List Char} :
    List.Forall₂ Resembles (',' :: (name ++ [','])) u ↔
      ∃ v, u = ',' :: (v ++ [',']) ∧ List.Forall₂ Resembles name v := by
  constructor
  · intro h
    cases h with
    | @cons _ c _ rest hc hrest =>
      obtain rfl := eq_of_resembles_comma hc
      have hname := List.forall₂_take name.length hrest
      have hlast := List.forall₂_drop name.length hrest
      rw [List.take_left] at hname
      rw [List.drop_left] at hlast
      refine ⟨rest.take name.length, ?_, hname⟩
      cases hdrop : rest.drop name.length with
      | nil =>
        rw [hdrop] at hlast
        cases hlast
      | cons d ds =>
        rw [hdrop] at hlast
        obtain ⟨hd, ⟨⟩⟩ := List.forall₂_cons.mp hlast
        obtain rfl := eq_of_resembles_comma hd
        rw [← hdrop, List.take_append_drop]
  · rintro ⟨v, rfl, hv⟩
    have hcomma : Resembles ',' ',' := .inr rfl
    exact .cons hcomma (List.rel_append hv (.cons hcomma .nil))

def trim (cs : List Char) : List Char :=
  ((cs.dropWhile isSpace).reverse.dropWhile isSpace).reverse

theorem trim_eq_self {cs : List Char} (h : ∀ c ∈ cs, isSpace c = false) : trim cs = cs := by
  have hdrop : ∀ cs : List Char, (∀ c ∈ cs, isSpace c = false) → cs.dropWhile isSpace = cs := by
    intro cs hcs
    cases cs with
    | nil => rfl
    | cons c cs => simp [hcs c List.mem_cons_self]
  rw [trim, hdrop cs h, hdrop cs.reverse fun c hc => h c (List.mem_reverse.mp hc),
    List.reverse_reverse]

theorem comma_not_mem_of_mem_splitOn {cs : List Char} : ∀ item ∈ cs.splitOn ',', ',' ∉ item := by
  induction cs with
  | nil => simp
  | cons c cs ih =>
    obtain ⟨head, tail, hsplit⟩ := List.exists_cons_of_ne_nil (List.splitOn_ne_nil ',' cs)
    rw [hsplit] at ih
    obtain ⟨hhead, htail⟩ := List.forall_mem_cons.mp ih
    rw [List.splitOn_cons_eq_if_modifyHead, hsplit]
    by_cases hc : c = ','
    · simp only [hc, beq_self_eq_true, if_true]
      exact List.forall_mem_cons.mpr ⟨List.not_mem_nil, ih⟩
    · simp only [beq_iff_eq, hc, if_false, List.modifyHead_cons]
      refine List.forall_mem_cons.mpr ⟨?_, htail⟩
      simp [hhead, Ne.symm hc]

/-- The items with a comma after each, and one before the first. -/
def fenced (items : List (List Char)) : List Char := ',' :: items.flatMap (· ++ [','])

theorem fenced_eq {items : List (List Char)} (h : items ≠ []) :
    fenced items = ',' :: ([','].intercalate items ++ [',']) := by
  rw [fenced, List.cons.injEq, eq_self, true_and]
  induction items with
  | nil => exact absurd rfl h
  | cons item items ih =>
    cases items with
    | nil => simp
    | cons next items =>
      rw [List.flatMap_cons, ih (by simp), List.intercalate_cons_cons]
      simp

theorem splitOn_fenced {items : List (List Char)} (h : ∀ item ∈ items, ',' ∉ item) :
    (fenced items).splitOn ',' = [] :: (items ++ [[]]) := by
  have hbody : (items.flatMap (· ++ [','])).splitOn ',' = items ++ [[]] := by
    induction items with
    | nil => simp
    | cons item items ih =>
      have hrest := ih fun i hi => h i (List.mem_cons_of_mem _ hi)
      rw [List.flatMap_cons, List.append_assoc, List.singleton_append,
        List.splitOn_append_cons_self_of_not_mem (h item List.mem_cons_self), hrest]
      rfl
  have hnone : ',' ∉ ([] : List Char) := List.not_mem_nil
  rw [fenced, ← hbody]
  exact List.splitOn_append_cons_self_of_not_mem hnone _

/-- Between two commas of a fenced list stand consecutive items of it, joined by commas. -/
theorem fenced_eq_iff {items : List (List Char)} (hitems : ∀ item ∈ items, ',' ∉ item)
    {u : List Char} :
    (∃ before rest, fenced items = before ++ ',' :: (u ++ ',' :: rest)) ↔
      ∃ run, run <:+: items ∧ run ≠ [] ∧ [','].intercalate run = u := by
  constructor
  · rintro ⟨before, rest, h⟩
    have hsplit := splitOn_fenced hitems
    rw [h, List.splitOn_append_cons_self, List.splitOn_append_cons_self] at hsplit
    obtain ⟨first, left, hbefore⟩ := List.exists_cons_of_ne_nil (List.splitOn_ne_nil ',' before)
    obtain ⟨right, last, hrest⟩ :=
      (List.eq_nil_or_concat' (rest.splitOn ',')).resolve_left (List.splitOn_ne_nil ',' rest)
    rw [hbefore, hrest, List.cons_append, List.cons.injEq] at hsplit
    have hitems := hsplit.2
    rw [← List.append_assoc, ← List.append_assoc] at hitems
    have hinner := (List.append_inj' hitems rfl).1
    refine ⟨u.splitOn ',', ⟨left, right, ?_⟩, List.splitOn_ne_nil ',' u,
      List.intercalate_splitOn ','⟩
    exact hinner
  · rintro ⟨run, ⟨left, right, rfl⟩, hrun, rfl⟩
    have hleft : ∃ before, ',' :: left.flatMap (· ++ [',']) = before ++ [','] := by
      induction left with
      | nil => exact ⟨[], rfl⟩
      | cons item left ih =>
        obtain ⟨before, hbefore⟩ := ih fun i hi => hitems i (List.mem_cons_of_mem _ hi)
        refine ⟨',' :: (item ++ before), ?_⟩
        simp [← hbefore]
    obtain ⟨before, hbefore⟩ := hleft
    have hmiddle := List.cons.inj (fenced_eq hrun)
    refine ⟨before, right.flatMap (· ++ [',']), ?_⟩
    have hfenced : fenced (left ++ run ++ right) = (',' :: left.flatMap (· ++ [','])) ++
        (run.flatMap (· ++ [',']) ++ right.flatMap (· ++ [','])) := by
      simp [fenced]
    rw [hfenced, hbefore, hmiddle.2]
    simp

def namePattern (name : List Char) : List Char := '%' :: (',' :: (name ++ [','])) ++ ['%']

/-- The pattern for a name finds every list with consecutive items that, joined by commas,
resemble the name. -/
theorem like_namePattern {items : List (List Char)} (hitems : ∀ item ∈ items, ',' ∉ item)
    {name : List Char} (hname : '%' ∉ name) :
    like (namePattern name) (fenced items) = true ↔
      ∃ run, run <:+: items ∧ run ≠ [] ∧ List.Forall₂ Resembles name ([','].intercalate run) := by
  have hword : '%' ∉ ',' :: (name ++ [',']) := by simp [hname]
  rw [namePattern, like_within hword]
  constructor
  · rintro ⟨before, u, rest, htext, hu⟩
    obtain ⟨v, rfl, hv⟩ := forall₂_resembles_fence.mp hu
    obtain ⟨run, hpart, hrun, rfl⟩ := (fenced_eq_iff hitems).mp ⟨before, rest, by simpa using htext⟩
    exact ⟨run, hpart, hrun, hv⟩
  · rintro ⟨run, hpart, hrun, hv⟩
    obtain ⟨before, rest, htext⟩ := (fenced_eq_iff hitems).mpr ⟨run, hpart, hrun, rfl⟩
    exact ⟨before, _, rest, by simpa using htext, forall₂_resembles_fence.mpr ⟨_, rfl, hv⟩⟩

theorem eq_of_resembles {name u : List Char} (h : List.Forall₂ Resembles name u)
    (hname : ∀ c ∈ name, c ≠ '_' ∧ c.toLower = c) (hu : ∀ c ∈ u, c.toLower = c) : u = name := by
  induction h with
  | nil => rfl
  | @cons p c name u hpc _ ih =>
    have hp := hname p List.mem_cons_self
    have hc := hu c List.mem_cons_self
    have hsame : p = c := by
      rw [← hp.2, ← hc]
      exact hpc.resolve_left hp.1
    rw [hsame, ih (fun d hd => hname d (List.mem_cons_of_mem _ hd))
      fun d hd => hu d (List.mem_cons_of_mem _ hd)]

/-- Items that come to a text without a comma are one item. -/
theorem eq_singleton_of_intercalate {run : List (List Char)} (hrun : run ≠ [])
    (h : ',' ∉ [','].intercalate run) : run = [[','].intercalate run] := by
  cases run with
  | nil => exact absurd rfl hrun
  | cons item run =>
    cases run with
    | nil => simp
    | cons next run =>
      rw [List.intercalate_cons_cons] at h
      simp at h

theorem mem_of_mem_intercalate {run : List (List Char)} {c : Char}
    (h : c ∈ [','].intercalate run) : c = ',' ∨ ∃ item ∈ run, c ∈ item := by
  induction run with
  | nil => simp at h
  | cons item run ih =>
    cases run with
    | nil => exact .inr ⟨item, List.mem_cons_self, by simpa using h⟩
    | cons next run =>
      rw [List.intercalate_cons_cons] at h
      simp only [List.mem_append, List.mem_singleton] at h
      rcases h with (h | rfl) | h
      · exact .inr ⟨item, List.mem_cons_self, h⟩
      · exact .inl rfl
      · rcases ih h with hcomma | ⟨other, hother, hc⟩
        · exact .inl hcomma
        · exact .inr ⟨other, List.mem_cons_of_mem _ hother, hc⟩

/-- The pattern for a name finds every list that has it, although `_` may find others too. -/
theorem like_fenced_of_mem {items : List (List Char)} (hitems : ∀ item ∈ items, ',' ∉ item)
    {name : List Char} (hname : '%' ∉ name) (hmem : name ∈ items) :
    like (namePattern name) (fenced items) = true := by
  refine (like_namePattern hitems hname).mpr ⟨[name], ?_, List.cons_ne_nil _ _, ?_⟩
  · obtain ⟨left, right, rfl⟩ := List.append_of_mem hmem
    exact ⟨left, right, by simp⟩
  · have hself : ∀ c ∈ name, Resembles c c := fun _ _ => .inr rfl
    rw [List.intercalate_singleton]
    exact List.forall₂_same.mpr hself

/-- The pattern finds the names of a list whose texts are their own lower case. -/
theorem like_fenced {items : List (List Char)} (hcomma : ∀ item ∈ items, ',' ∉ item)
    (hlower : ∀ item ∈ items, ∀ c ∈ item, c.toLower = c) {name : List Char}
    (hname : ∀ c ∈ name, c ≠ '%' ∧ c ≠ '_' ∧ c ≠ ',' ∧ c.toLower = c) :
    like (namePattern name) (fenced items) = true ↔ name ∈ items := by
  have hpercent : '%' ∉ name := fun hc => (hname '%' hc).1 rfl
  constructor
  · intro hlike
    obtain ⟨run, hpart, hrun, hresembles⟩ := (like_namePattern hcomma hpercent).mp hlike
    have hjoined : ∀ c ∈ [','].intercalate run, c.toLower = c := by
      intro c hc
      rcases mem_of_mem_intercalate hc with rfl | ⟨item, hitem, hc⟩
      · decide
      · exact hlower item (hpart.subset hitem) c hc
    have heq := eq_of_resembles hresembles (fun c hc => (hname c hc).2.imp_right And.right) hjoined
    have hsingle : run = [[','].intercalate run] := by
      refine eq_singleton_of_intercalate hrun ?_
      rw [heq]
      exact fun hc => (hname ',' hc).2.2.1 rfl
    rw [heq] at hsingle
    exact hpart.subset (by simp [hsingle])
  · exact like_fenced_of_mem hcomma hpercent

section Escaped

/-- LIKE with an escape character, after which a character stands for itself. -/
def likeEscape (escape : Char) : List Char → List Char → Bool
  | [], text => text.isEmpty
  | p :: pattern, text =>
    if p = escape then
      match pattern, text with
      | q :: pattern, c :: text => q.toLower == c.toLower && likeEscape escape pattern text
      | _, _ => false
    else if p = '%' then text.tails.any (likeEscape escape pattern)
    else
      match text with
      | [] => false
      | c :: text => (p == '_' || p.toLower == c.toLower) && likeEscape escape pattern text

/-- `replaceAll` of a character by itself behind a backslash. -/
def escaping (c : Char) (cs : List Char) : List Char :=
  cs.flatMap fun d => if d = c then ['\\', d] else [d]

def escapeLike (cs : List Char) : List Char := escaping '_' (escaping '%' (escaping '\\' cs))

/-- The text has the word somewhere, up to the case of ASCII letters. -/
def Contains (word text : List Char) : Prop :=
  ∃ before u rest, text = before ++ u ++ rest ∧
    List.Forall₂ (fun p c => p.toLower = c.toLower) word u

theorem escapeLike_cons (c : Char) (cs : List Char) : escapeLike (c :: cs) =
    (if c = '\\' ∨ c = '%' ∨ c = '_' then ['\\', c] else [c]) ++ escapeLike cs := by
  by_cases hslash : c = '\\'
  · simp [escapeLike, escaping, hslash]
  · by_cases hpercent : c = '%'
    · simp [escapeLike, escaping, hpercent]
    · by_cases hunder : c = '_'
      · simp [escapeLike, escaping, hunder]
      · simp [escapeLike, escaping, hslash, hpercent, hunder]

theorem likeEscape_letter {c : Char} (cs pattern text : List Char) :
    likeEscape '\\' (escapeLike (c :: cs) ++ pattern) text = true ↔
      ∃ d rest, text = d :: rest ∧ c.toLower = d.toLower ∧
        likeEscape '\\' (escapeLike cs ++ pattern) rest = true := by
  rw [escapeLike_cons]
  by_cases hspecial : c = '\\' ∨ c = '%' ∨ c = '_'
  · rw [if_pos hspecial]
    cases text with
    | nil => simp [likeEscape]
    | cons d rest => simp [likeEscape]
  · rw [if_neg hspecial]
    rw [not_or, not_or] at hspecial
    obtain ⟨hslash, hpercent, hunder⟩ := hspecial
    cases text with
    | nil => simp [likeEscape, hslash, hpercent]
    | cons d rest =>
      rw [List.singleton_append, List.cons_append, likeEscape.eq_def]
      simp [hslash, hpercent, hunder]

theorem likeEscape_append (cs : List Char) {pattern text : List Char} :
    likeEscape '\\' (escapeLike cs ++ pattern) text = true ↔ ∃ u rest, text = u ++ rest ∧
      List.Forall₂ (fun p c => p.toLower = c.toLower) cs u ∧
        likeEscape '\\' pattern rest = true := by
  induction cs generalizing text with
  | nil =>
    constructor
    · intro hlike
      exact ⟨[], text, rfl, .nil, hlike⟩
    · rintro ⟨u, rest, rfl, hu, hlike⟩
      cases hu
      exact hlike
  | cons c cs ih =>
    rw [likeEscape_letter]
    constructor
    · rintro ⟨d, rest, rfl, hd, hlike⟩
      obtain ⟨u, rest', rfl, hu, hlike⟩ := ih.mp hlike
      exact ⟨d :: u, rest', rfl, .cons hd hu, hlike⟩
    · rintro ⟨u, rest, rfl, hu, hlike⟩
      cases hu with
      | cons hd hu => exact ⟨_, _, rfl, hd, ih.mpr ⟨_, rest, rfl, hu, hlike⟩⟩

/-- A text that is escaped and put between two wildcards is looked for as it is. -/
theorem likeEscape_within (cs : List Char) {text : List Char} :
    likeEscape '\\' ('%' :: (escapeLike cs ++ ['%'])) text = true ↔ Contains cs text := by
  have hlast : ∀ rest : List Char, likeEscape '\\' ['%'] rest = true := by
    intro rest
    have hnil : [] ∈ rest.tails := (List.mem_tails _ _).mpr List.nil_suffix
    simp only [likeEscape]
    exact List.any_eq_true.mpr ⟨[], hnil, rfl⟩
  have hfirst : likeEscape '\\' ('%' :: (escapeLike cs ++ ['%'])) text =
      text.tails.any (likeEscape '\\' (escapeLike cs ++ ['%'])) := by
    rw [likeEscape.eq_def]
    rfl
  rw [hfirst]
  simp only [List.any_eq_true, List.mem_tails, likeEscape_append, hlast, and_true]
  constructor
  · rintro ⟨tail, ⟨before, rfl⟩, u, rest, rfl, hu⟩
    exact ⟨before, u, rest, by simp, hu⟩
  · rintro ⟨before, u, rest, rfl, hu⟩
    exact ⟨u ++ rest, ⟨before, by simp⟩, u, rest, rfl, hu⟩

instance (word text : List Char) : Decidable (Contains word text) :=
  decidable_of_iff _ (likeEscape_within word)

end Escaped

example : like (namePattern "owner".toList) ",admin,owner,".toList = true := by decide

example : like (namePattern "owner".toList) ",co-owner,".toList = false := by decide

end Text
