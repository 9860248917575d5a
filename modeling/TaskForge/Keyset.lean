/-
Following a keyset listing from page to page.

Between two pages anything may happen to the table, so page `k` is cut from an answer
`answers k` of its own; all that is asked of the answers is that each is in strict
order. A page begins after the position its cursor names and gives the position of
its last row as the next cursor, so the positions of a walk only go forward
(`Walked.sorted`), and a row that is in every answer is not overtaken: as long as it
is not on a page it is after the page's last row (`Walked.complete`). A page that is
not the last has a row, so a walk that goes on for `n` pages shows `n` rows
(`Walked.going`).

Rows are told apart by an identity, which keeps its position over time. In those
terms a walk is `Complete`: in order, no row twice, every row that stays exactly once,
and over when no more rows come.
-/
import TaskForge.Query
import TaskForge.Fallible
import Mathlib.Data.List.Perm.Subperm

open Fallible

namespace Relational

variable {α κ ι ε : Type} {o : SortOrder κ} {read : ℕ → String → Except ε (Page α)}

/-! ## Strict order -/

/-- `a` stands strictly before `b`. -/
def SortOrder.lt (o : SortOrder κ) (a b : κ) : Bool := !o.le b a

namespace SortOrder

variable {a b c : κ}

theorem lt_irrefl : o.lt a a = false := by
  have h := o.total a a
  rw [Bool.or_self] at h
  rw [SortOrder.lt, h]
  rfl

theorem lt_trans (hab : o.lt a b = true) (hbc : o.lt b c = true) : o.lt a c = true := by
  simp only [SortOrder.lt, Bool.not_eq_true'] at hab hbc ⊢
  by_contra hca
  rw [Bool.not_eq_false] at hca
  -- If `c` came no later than `a`, then `b`, which is before `c`, would come before `a`.
  have hbc' : o.le b c = true := by
    have h := o.total b c
    rwa [hbc, Bool.or_false] at h
  rw [o.trans b c a hbc' hca] at hab
  cases hab

theorem lt_of_le_of_ne (hle : o.le a b = true) (hne : a ≠ b) : o.lt a b = true := by
  rw [SortOrder.lt, Bool.not_eq_true']
  by_contra hba
  exact hne (o.antisymm a b hle (Bool.not_eq_false _ ▸ hba))

end SortOrder

/-- The position `q` is after where the walk stands, and so is what is after `q`. -/
theorem isAfter_of_lt {p : Option κ} {q r : κ} (hq : isAfter o p q = true) (hqr : o.lt q r = true) :
    isAfter o p r = true := by
  cases p with
  | none => rfl
  | some p => exact SortOrder.lt_trans hq hqr

/-! ## What a page is cut from -/

section Shown

variable {R : Type} {key : R → κ} {q : R → Bool} {view : R → Option α} {pos : α → κ}
  {rows : List R}

/-- The rows a listing selects after a position, in order, as they are shown. -/
def shown (o : SortOrder κ) (key : R → κ) (q : R → Bool) (view : R → Option α) (p : Option κ)
    (rows : List R) : List α :=
  (listing o key q p rows).filterMap view

/-- What is left of an answer after a position. -/
def after (o : SortOrder κ) (pos : α → κ) (p : Option κ) (answer : List α) : List α :=
  answer.filter fun a => isAfter o p (pos a)

theorem mem_shown {x : α} :
    x ∈ shown o key q view none rows ↔ ∃ r ∈ rows, q r = true ∧ view r = some x := by
  rw [shown, List.mem_filterMap]
  constructor
  · rintro ⟨r, hr, hx⟩
    obtain ⟨hmem, hq, -⟩ := mem_listing.mp hr
    exact ⟨r, hmem, hq, hx⟩
  · rintro ⟨r, hmem, hq, hx⟩
    exact ⟨r, mem_listing.mpr ⟨hmem, hq, rfl⟩, hx⟩

/-- The condition of the cursor can be applied to what is shown without it. -/
theorem shown_after (hkey : ∀ a ∈ rows, ∀ b ∈ rows, q a = true → q b = true → key a = key b → a = b)
    (hview : ∀ r x, view r = some x → pos x = key r) (p : Option κ) :
    shown o key q view p rows = after o pos p (shown o key q view none rows) := by
  have hlisting : listing o key q p rows
      = (listing o key q none rows).filter fun r => isAfter o p (key r) := by
    unfold listing
    rw [← orderBy_filter, List.filter_filter]
    · refine congrArg (orderBy o key) (List.filter_congr fun r _ => ?_)
      rw [show isAfter o none (key r) = true from rfl, Bool.and_true, Bool.and_comm]
    · intro a ha b hb hab
      simp only [List.mem_filter, Bool.and_eq_true] at ha hb
      exact hkey a ha.1 b hb.1 ha.2.1 hb.2.1 hab
  rw [shown, shown, after, hlisting, List.filterMap_filter, List.filter_filterMap]
  refine List.filterMap_congr fun r _ => ?_
  cases hx : view r with
  | none => simp
  | some x => simp [Option.filter, hview r x hx]

/-- Where the key tells the selected rows apart, the answer is in strict order. -/
theorem shown_sorted (hnodup : rows.Nodup)
    (hkey : ∀ a ∈ rows, ∀ b ∈ rows, q a = true → q b = true → key a = key b → a = b)
    (hview : ∀ r x, view r = some x → pos x = key r) (p : Option κ) :
    (shown o key q view p rows).Pairwise fun a b => o.lt (pos a) (pos b) = true := by
  have hperm := orderBy_perm o key (rows.filter fun r => q r && isAfter o p (key r))
  have hdistinct : (listing o key q p rows).Nodup := hperm.nodup_iff.mpr (hnodup.filter _)
  have hordered : (listing o key q p rows).Pairwise fun a b => o.le (key a) (key b) = true :=
    orderBy_pairwise o key _
  have hstrict : (listing o key q p rows).Pairwise fun a b => o.lt (key a) (key b) = true := by
    refine (hordered.and hdistinct).imp_of_mem fun {a b} ha hb hab => ?_
    refine SortOrder.lt_of_le_of_ne hab.1 fun heq => hab.2 ?_
    obtain ⟨hma, hqa, -⟩ := mem_listing.mp ha
    obtain ⟨hmb, hqb, -⟩ := mem_listing.mp hb
    exact hkey a hma b hmb hqa hqb heq
  refine List.pairwise_filterMap.mpr (hstrict.imp fun {a b} hab x hx y hy => ?_)
  rwa [hview a x hx, hview b y hy]

end Shown

/-! ## Walks -/

/-- The pages read, and whether the last of them gave no cursor. -/
structure Walk (α : Type) where
  pages : List (List α)
  ended : Bool
deriving DecidableEq

def Walk.items (w : Walk α) : List α := w.pages.flatten

/-- Read at most `n` pages, the `k`-th with `read k`, each with the cursor of the one
before. -/
def walk (read : ℕ → String → Except ε (Page α)) : ℕ → ℕ → String → Except ε (Walk α)
  | 0, _, _ => pure ⟨[], false⟩
  | n + 1, k, cursor => do
    let page ← read k cursor
    if page.nextCursor = "" then pure ⟨[page.items], true⟩
    else do
      let rest ← walk read n (k + 1) page.nextCursor
      pure ⟨page.items :: rest.pages, rest.ended⟩

/-- One page of an answer. -/
def pageAfter (o : SortOrder κ) (pos : α → κ) (token : α → String) (limit : ℕ) (p : Option κ)
    (answer : List α) : Page α :=
  cutPage limit token ((after o pos p answer).take (limit + 1))

/-- `read` lists `answers`: without a cursor from the start, and with the cursor of a
row from that row on. -/
structure Lists (o : SortOrder κ) (pos : α → κ) (token : α → String) (answers : ℕ → List α)
    (limit : ℕ → ℕ) (read : ℕ → String → Except ε (Page α)) : Prop where
  sorted : ∀ k, (answers k).Pairwise fun a b => o.lt (pos a) (pos b) = true
  limit_pos : ∀ k, 0 < limit k
  token_ne : ∀ k, ∀ a ∈ answers k, token a ≠ ""
  first : ∀ k, read k "" = .ok (pageAfter o pos token (limit k) none (answers k))
  next : ∀ k m, ∀ a ∈ answers m,
    read k (token a) = .ok (pageAfter o pos token (limit k) (some (pos a)) (answers k))

/-- A listing that decodes its cursor and cuts a page from what it shows after it. -/
theorem Lists.of_reads {R : Type} {key : R → κ} {q : R → Bool} {view : ℕ → R → Option α}
    {pos : α → κ} {token : α → String} {rows : ℕ → List R} {limit : ℕ → ℕ}
    (decode : String → Except ε (Option κ)) (hnodup : ∀ k, (rows k).Nodup)
    (hkey : ∀ k, ∀ a ∈ rows k, ∀ b ∈ rows k, q a = true → q b = true → key a = key b → a = b)
    (hview : ∀ k r x, view k r = some x → pos x = key r) (hlimit : ∀ k, 0 < limit k)
    (hstart : decode "" = .ok none) (htoken : ∀ k, ∀ r ∈ rows k, ∀ x, view k r = some x →
      token x ≠ "" ∧ decode (token x) = .ok (some (key r)))
    (hread : ∀ k cursor p, decode cursor = .ok p → read k cursor
      = .ok (cutPage (limit k) token ((shown o key q (view k) p (rows k)).take (limit k + 1)))) :
    Lists o pos token (fun k => shown o key q (view k) none (rows k)) limit read := by
  have hpage : ∀ k cursor p, decode cursor = .ok p → read k cursor
      = .ok (pageAfter o pos token (limit k) p (shown o key q (view k) none (rows k))) := by
    intro k cursor p hp
    rw [hread k cursor p hp, pageAfter, ← shown_after (hkey k) (hview k) p]
  refine ⟨fun k => shown_sorted (hnodup k) (hkey k) (hview k) none, hlimit, ?_,
    fun k => hpage k "" none hstart, ?_⟩
  · intro k x hx
    obtain ⟨r, hr, -, hrx⟩ := mem_shown.mp hx
    exact (htoken k r hr x hrx).1
  · intro k m x hx
    obtain ⟨r, hr, -, hrx⟩ := mem_shown.mp hx
    rw [hview m r x hrx]
    exact hpage k (token x) _ (htoken m r hr x hrx).2

/-- What a cursor stands for. -/
inductive Opens (pos : α → κ) (token : α → String) (answers : ℕ → List α) :
    String → Option κ → Prop where
  | start : Opens pos token answers "" none
  | row (m : ℕ) (a : α) (mem : a ∈ answers m) : Opens pos token answers (token a) (some (pos a))

/-- A walk of at most `n` pages from page `k` and the position `p`. -/
structure Walked (o : SortOrder κ) (pos : α → κ) (answers : ℕ → List α) (n k : ℕ) (p : Option κ)
    (w : Walk α) : Prop where
  beyond : ∀ x ∈ w.items, isAfter o p (pos x) = true
  sorted : w.items.Pairwise fun a b => o.lt (pos a) (pos b) = true
  genuine : ∀ i page, w.pages[i]? = some page → ∀ x ∈ page, x ∈ answers (k + i)
  complete : w.ended = true → ∀ q, isAfter o p q = true →
    (∀ i < w.pages.length, ∃ a ∈ answers (k + i), pos a = q) → ∃ x ∈ w.items, pos x = q
  going : w.ended = false → n ≤ w.items.length
  started : w.ended = true → 0 < w.pages.length

section Walks

variable {pos : α → κ} {token : α → String} {answers : ℕ → List α} {limit : ℕ → ℕ}

/-- A page is all that is left, or the beginning of it up to a last row whose cursor it
gives. -/
theorem pageAfter_cases {n : ℕ} (hn : 0 < n) (p : Option κ) (answer : List α) :
    (pageAfter o pos token n p answer = ⟨after o pos p answer, ""⟩) ∨
      ∃ init last rest, after o pos p answer = init ++ last :: rest ∧
        pageAfter o pos token n p answer = ⟨init ++ [last], token last⟩ := by
  unfold pageAfter
  generalize after o pos p answer = found
  by_cases hlong : n < found.length
  · obtain ⟨init, rest, rfl, hlen⟩ : ∃ init rest, found = init ++ rest ∧ init.length = n - 1 :=
      ⟨found.take (n - 1), found.drop (n - 1), (List.take_append_drop _ _).symm, by
        rw [List.length_take]; omega⟩
    cases rest with
    | nil =>
      rw [List.append_nil] at hlong
      omega
    | cons last rest =>
      refine .inr ⟨init, last, rest, rfl, ?_⟩
      have hshort : n < ((init ++ last :: rest).take (n + 1)).length := by
        rw [List.length_take]
        omega
      have htake : ((init ++ last :: rest).take (n + 1)).take n = init ++ [last] := by
        rw [List.take_take, Nat.min_eq_left (Nat.le_succ n), List.take_append,
          List.take_of_length_le (by omega), show n - init.length = 1 by omega]
        rfl
      have hlast : ((init ++ last :: rest).take (n + 1))[n - 1]? = some last := by
        rw [List.getElem?_take_of_lt (by omega), ← hlen, List.getElem?_append_right (Nat.le_refl _),
          Nat.sub_self]
        rfl
      rw [cutPage, if_pos hshort, htake, hlast]
      rfl
  · have htake : found.take (n + 1) = found := List.take_of_length_le (by omega)
    rw [htake, cutPage, if_neg hlong]
    exact .inl rfl

/-- A last page. -/
theorem Walked.last (hsorted : ∀ k, (answers k).Pairwise fun a b => o.lt (pos a) (pos b) = true)
    (n k : ℕ) (p : Option κ) :
    Walked o pos answers (n + 1) k p ⟨[after o pos p (answers k)], true⟩ := by
  have hmem : ∀ x ∈ (⟨[after o pos p (answers k)], true⟩ : Walk α).items,
      x ∈ answers k ∧ isAfter o p (pos x) = true := by
    intro x hx
    rw [Walk.items, List.flatten_cons, List.flatten_nil, List.append_nil] at hx
    exact List.mem_filter.mp hx
  refine ⟨fun x hx => (hmem x hx).2, ?_, ?_, ?_, nofun, fun _ => Nat.succ_pos _⟩
  · rw [Walk.items, List.flatten_cons, List.flatten_nil, List.append_nil]
    exact (hsorted k).filter _
  · intro i page hpage x hx
    cases i with
    | zero =>
      cases hpage
      exact (List.mem_filter.mp hx).1
    | succ i => cases hpage
  · intro _ q hq hstays
    obtain ⟨a, ha, rfl⟩ := hstays 0 Nat.zero_lt_one
    refine ⟨a, ?_, rfl⟩
    rw [Walk.items, List.flatten_cons, List.flatten_nil, List.append_nil]
    exact List.mem_filter.mpr ⟨ha, hq⟩

/-- A page with a cursor, and the walk that goes on from there. -/
theorem Walked.cons (hsorted : ∀ k, (answers k).Pairwise fun a b => o.lt (pos a) (pos b) = true)
    {n k : ℕ} {p : Option κ} {init rest : List α} {last : α} {w : Walk α}
    (hfound : after o pos p (answers k) = init ++ last :: rest)
    (h : Walked o pos answers n (k + 1) (some (pos last)) w) :
    Walked o pos answers (n + 1) k p ⟨(init ++ [last]) :: w.pages, w.ended⟩ := by
  have hitems : (⟨(init ++ [last]) :: w.pages, w.ended⟩ : Walk α).items
      = (init ++ [last]) ++ w.items := List.flatten_cons
  have hpage : ∀ x ∈ init ++ [last], x ∈ answers k ∧ isAfter o p (pos x) = true := by
    intro x hx
    have hx' : x ∈ after o pos p (answers k) := by
      rw [hfound, List.append_cons]
      exact List.mem_append_left _ hx
    exact List.mem_filter.mp hx'
  have hlast : isAfter o p (pos last) = true :=
    (hpage last List.mem_concat_self).2
  have hfoundSorted : (init ++ last :: rest).Pairwise fun a b => o.lt (pos a) (pos b) = true :=
    hfound ▸ (hsorted k).filter _
  rw [List.append_cons, List.pairwise_append] at hfoundSorted
  obtain ⟨hinit, -, hrest⟩ := hfoundSorted
  refine ⟨?_, ?_, ?_, ?_, ?_, fun _ => Nat.succ_pos _⟩
  · intro x hx
    rw [hitems, List.mem_append] at hx
    rcases hx with hx | hx
    · exact (hpage x hx).2
    · exact isAfter_of_lt hlast (h.beyond x hx)
  · rw [hitems, List.pairwise_append]
    refine ⟨hinit, h.sorted, fun x hx y hy => ?_⟩
    have hy' : o.lt (pos last) (pos y) = true := h.beyond y hy
    rw [List.mem_append, List.mem_singleton] at hx
    rcases hx with hx | rfl
    · exact SortOrder.lt_trans
        ((List.pairwise_append.mp hinit).2.2 x hx last (List.mem_singleton.mpr rfl)) hy'
    · exact hy'
  · intro i page hi x hx
    cases i with
    | zero =>
      cases hi
      exact (hpage x hx).1
    | succ i =>
      rw [List.getElem?_cons_succ] at hi
      have hmem := h.genuine i page hi x hx
      rwa [show k + 1 + i = k + (i + 1) by omega] at hmem
  · -- A row that stays is on this page or after its last row.
    intro hended q hq hstays
    obtain ⟨a, ha, rfl⟩ := hstays 0 (Nat.succ_pos _)
    have ha' : a ∈ after o pos p (answers k) := List.mem_filter.mpr ⟨ha, hq⟩
    rw [hfound, List.append_cons, List.mem_append] at ha'
    rw [hitems]
    rcases ha' with ha' | ha'
    · exact ⟨a, List.mem_append_left _ ha', rfl⟩
    · have hbeyond : isAfter o (some (pos last)) (pos a) = true :=
        hrest last List.mem_concat_self a ha'
      obtain ⟨x, hx, hpos⟩ := h.complete hended (pos a) hbeyond fun i hi => by
        have hi' := hstays (i + 1) (Nat.succ_lt_succ hi)
        rwa [show k + (i + 1) = k + 1 + i by omega] at hi'
      exact ⟨x, List.mem_append_right _ hx, hpos⟩
  · intro hended
    have hlen := h.going hended
    rw [hitems, List.length_append, List.length_append, List.length_singleton]
    omega

/-- The cursor a page gives is the one of its last row. -/
theorem cutPage_nextCursor {n : ℕ} (hn : 0 < n) {found : List α}
    (h : (cutPage n token found).nextCursor ≠ "") :
    ∃ last, (cutPage n token found).items.getLast? = some last ∧
      (cutPage n token found).nextCursor = token last := by
  unfold cutPage at h ⊢
  split_ifs at h ⊢ with hlong
  · have hget : n - 1 < found.length := by omega
    refine ⟨found[n - 1], ?_, ?_⟩
    · rw [List.getLast?_eq_getElem?, List.length_take, Nat.min_eq_left (Nat.le_of_lt hlong),
        List.getElem?_take_of_lt (by omega), List.getElem?_eq_getElem hget]
    · rw [List.getElem?_eq_getElem hget]
      rfl
  · exact absurd rfl h

/-- **Every walk is one of these.** -/
theorem Lists.walked (h : Lists o pos token answers limit read) (n k : ℕ) {cursor : String}
    {p : Option κ} (hopen : Opens pos token answers cursor p) :
    ∃ w, walk read n k cursor = .ok w ∧ Walked o pos answers n k p w := by
  induction n generalizing k cursor p with
  | zero =>
    refine ⟨⟨[], false⟩, rfl, ⟨nofun, .nil, fun i page hi => ?_, nofun, fun _ => Nat.zero_le _, nofun⟩⟩
    cases hi
  | succ n ih =>
    have hread : read k cursor = .ok (pageAfter o pos token (limit k) p (answers k)) := by
      cases hopen with
      | start => exact h.first k
      | row m a mem => exact h.next k m a mem
    rcases @pageAfter_cases α κ o pos token _ (h.limit_pos k) p (answers k) with
      hlast | ⟨init, last, rest, hfound, hmore⟩
    · refine ⟨_, ?_, Walked.last h.sorted n k p⟩
      rw [walk, hread, hlast]
      rfl
    · have hmem : last ∈ answers k := by
        have hin : last ∈ after o pos p (answers k) := by
          rw [hfound]
          exact List.mem_append_right _ List.mem_cons_self
        exact (List.mem_filter.mp hin).1
      obtain ⟨w, hw, hwalked⟩ := ih (k + 1) (.row k last hmem)
      refine ⟨_, ?_, Walked.cons h.sorted hfound hwalked⟩
      rw [walk, hread, hmore, ok_bind, if_neg (h.token_ne k last hmem), hw]
      rfl

end Walks

/-! ## Complete walks -/

/-- Following the cursors of `read` from the first page on. `Shows k x` says that `x` is
in the answer that page `k` is cut from. -/
structure Complete [DecidableEq ι] (read : ℕ → String → Except ε (Page α)) (ident : α → ι)
    (Before : α → α → Prop) (Shows : ℕ → α → Prop) : Prop where
  walks : ∀ n, ∃ w, walk read n 0 "" = .ok w ∧ w.items.Pairwise Before ∧
    (w.items.map ident).Nodup ∧
    (∀ i page, w.pages[i]? = some page → ∀ x ∈ page, Shows i x) ∧
    (w.ended = true → ∀ r, (∀ i < w.pages.length, ∃ x, Shows i x ∧ ident x = r) →
      (w.items.map ident).count r = 1)
  ends : ∀ ever : List ι, (∀ i x, Shows i x → ident x ∈ ever) →
    ∃ w, walk read (ever.length + 1) 0 "" = .ok w ∧ w.ended = true

/-- The order and what is shown may be put in other words. -/
theorem Complete.congr [DecidableEq ι] {ident : α → ι} {Before Before' : α → α → Prop}
    {Shows Shows' : ℕ → α → Prop} (h : Complete read ident Before Shows)
    (hshows : ∀ k x, Shows k x ↔ Shows' k x)
    (hbefore : ∀ k m a b, Shows k a → Shows m b → Before a b → Before' a b) :
    Complete read ident Before' Shows' := by
  obtain rfl : Shows = Shows' := funext fun k => funext fun x => propext (hshows k x)
  refine ⟨fun n => ?_, h.ends⟩
  obtain ⟨w, hw, hsorted, hnodup, hgenuine, hcomplete⟩ := h.walks n
  have hshown : ∀ x ∈ w.items, ∃ k, Shows k x := by
    intro x hx
    obtain ⟨page, hpage, hx⟩ := List.mem_flatten.mp hx
    obtain ⟨k, hk, hget⟩ := List.mem_iff_getElem.mp hpage
    exact ⟨k, hgenuine k page (List.getElem?_eq_some_iff.mpr ⟨hk, hget⟩) x hx⟩
  refine ⟨w, hw, hsorted.imp_of_mem fun {a b} ha hb hab => ?_, hnodup, hgenuine, hcomplete⟩
  obtain ⟨k, hka⟩ := hshown a ha
  obtain ⟨m, hmb⟩ := hshown b hb
  exact hbefore k m a b hka hmb hab

section Completeness

variable {pos : α → κ} {token : α → String} {answers : ℕ → List α} {limit : ℕ → ℕ} {ident : α → ι}
  {n : ℕ} {p : Option κ} {w : Walk α}

/-- Every row of a walk is in one of the answers. -/
theorem Walked.mem_answers (h : Walked o pos answers n 0 p w) {x : α} (hx : x ∈ w.items) :
    ∃ i < w.pages.length, x ∈ answers i := by
  obtain ⟨page, hpage, hx⟩ := List.mem_flatten.mp hx
  obtain ⟨i, hi, hget⟩ := List.mem_iff_getElem.mp hpage
  have hmem := h.genuine i page (List.getElem?_eq_some_iff.mpr ⟨hi, hget⟩) x hx
  rw [Nat.zero_add] at hmem
  exact ⟨i, hi, hmem⟩

/-- No row twice: the same row has the same position. -/
theorem Walked.nodup (h : Walked o pos answers n 0 p w)
    (hstable : ∀ i j, ∀ a ∈ answers i, ∀ b ∈ answers j, ident a = ident b → pos a = pos b) :
    (w.items.map ident).Nodup := by
  refine List.pairwise_map.mpr (h.sorted.imp_of_mem fun {a b} ha hb hlt => ?_)
  intro hident
  obtain ⟨i, -, hai⟩ := h.mem_answers ha
  obtain ⟨j, -, hbj⟩ := h.mem_answers hb
  rw [hstable i j a hai b hbj hident, SortOrder.lt_irrefl] at hlt
  cases hlt

/-- In one answer a position is one row. -/
theorem eq_of_sorted {answer : List α}
    (h : answer.Pairwise fun a b => o.lt (pos a) (pos b) = true) {x y : α} (hx : x ∈ answer)
    (hy : y ∈ answer) (hpos : pos x = pos y) : x = y := by
  have hnodup : (answer.map pos).Nodup := by
    refine List.pairwise_map.mpr (h.imp fun {a b} hlt heq => ?_)
    rw [heq, SortOrder.lt_irrefl] at hlt
    cases hlt
  exact List.inj_on_of_nodup_map hnodup hx hy hpos

/-- **The walk of a keyset listing is complete.** -/
theorem Lists.complete [DecidableEq ι] (h : Lists o pos token answers limit read)
    (hstable : ∀ i j, ∀ a ∈ answers i, ∀ b ∈ answers j, ident a = ident b → pos a = pos b) :
    Complete read ident (fun a b => o.lt (pos a) (pos b) = true) fun k x => x ∈ answers k := by
  refine ⟨fun n => ?_, fun ever hever => ?_⟩
  · obtain ⟨w, hw, hwalked⟩ := h.walked n 0 .start
    refine ⟨w, hw, hwalked.sorted, hwalked.nodup hstable, ?_, fun hended r hstays => ?_⟩
    · intro i page hpage x hx
      have hmem := hwalked.genuine i page hpage x hx
      rwa [Nat.zero_add] at hmem
    · refine List.count_eq_one_of_mem (hwalked.nodup hstable) ?_
      obtain ⟨a₀, ha₀, hr₀⟩ := hstays 0 (hwalked.started hended)
      obtain ⟨x, hx, hpos⟩ := hwalked.complete hended (pos a₀) rfl fun i hi => by
        obtain ⟨a, ha, hr⟩ := hstays i hi
        rw [Nat.zero_add]
        exact ⟨a, ha, hstable i 0 a ha a₀ ha₀ (hr.trans hr₀.symm)⟩
      obtain ⟨i, hi, hxi⟩ := hwalked.mem_answers hx
      obtain ⟨a, ha, hr⟩ := hstays i hi
      have hax : a = x := eq_of_sorted (h.sorted i) ha hxi
        ((hstable i 0 a ha a₀ ha₀ (hr.trans hr₀.symm)).trans hpos.symm)
      exact List.mem_map.mpr ⟨x, hx, by rw [← hax, hr]⟩
  · obtain ⟨w, hw, hwalked⟩ := h.walked (ever.length + 1) 0 .start
    refine ⟨w, hw, ?_⟩
    by_contra hgoing
    have hlen := hwalked.going (Bool.eq_false_iff.mpr hgoing)
    have hsub : w.items.map ident ⊆ ever := by
      intro r hr
      obtain ⟨x, hx, rfl⟩ := List.mem_map.mp hr
      obtain ⟨i, -, hxi⟩ := hwalked.mem_answers hx
      exact hever i x hxi
    have hle := (List.subperm_of_subset (hwalked.nodup hstable) hsub).length_le
    rw [List.length_map] at hle
    omega

end Completeness

end Relational
