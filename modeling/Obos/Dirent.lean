/-
Path lookup in the tree of directory entries (`vfs/dirent.c`).

`direntLookupFrom` walks a path from a starting dirent.  Each round of its loop
compares the token with the name of the dirent it stands on, then with the
names of the children, and climbs to the parent when neither matches.  Strings
are the characters before the terminating zero, and `strchr` is the kernel's
own: the position after the character, or the length.

Descending through child names is `descend`.  The lookup agrees with it as long
as no dirent on the way is named like the component looked up in it and nothing
above the dirent where the descent stops has that name:

* `lookup_eq_descend` — the lookup is the descent under that condition,
* `lookup_own_name` — a child named like its directory is never found,
* `round_returns` — the loop ends from every state.

The name caches are empty, so the functions of the name cache are left out.
-/
import Obos.Lib.Loop
import Obos.Machine

namespace Obos.Vfs

open List

/-- The dirents of a file system tree, with the trees that are mounted on it. -/
structure DirentTree (ι : Type*) where
  name : ι → List Char
  parent : ι → Option ι
  /-- From `d_children.head` along `d_next_child`. -/
  children : ι → List ι
  /-- The root of the file system mounted on a dirent. -/
  mounted : ι → Option ι
  depth : ι → ℕ
  parent_of_mem : ∀ {p c}, c ∈ children p → parent c = some p
  depth_parent : ∀ {p c}, parent c = some p → depth p < depth c

/-! ### Strings -/

/-- The kernel's `strchr`: one past the first `ch`, or the length. -/
def strchr (s : List Char) (ch : Char) : ℕ :=
  match s.findIdx? (· == ch) with
  | some i => i + 1
  | none => s.length

/-- `str_search`: past the first run of `ch`. -/
def strSearch (s : List Char) (ch : Char) : ℕ :=
  strchr s ch + ((s.drop (strchr s ch)).takeWhile (· == ch)).length

/-- `while (tok[n - 1] == '/') n--`. -/
def dropSlashes (tok : List Char) : ℕ → ℕ
  | 0 => 0
  | n + 1 => if tok[n]? = some '/' then dropSlashes tok n else n + 1

/-- `while (tok[n] == '/') n--`. -/
def backSlashes (tok : List Char) : ℕ → ℕ
  | 0 => 0
  | n + 1 => if tok[n + 1]? = some '/' then backSlashes tok n else n + 1

/-- `currentPathLen` in `on_match`. -/
def currentPathLen (tok : List Char) : ℕ :=
  let n := tok.length - 1
  backSlashes tok (if tok[n]? ≠ some '/' then n + 1 else n)

/-- The token length, from the length `whole` of the rest of the path. -/
def tokenLen (tok : List Char) (whole : ℕ) : ℕ :=
  let n := strchr tok '/'
  dropSlashes tok (if n ≠ whole then n - 1 else n)

/-- `OBOS_CompareStringNC`. -/
def compareStringNC (name tok : List Char) (n : ℕ) : Bool := name.length == n && name == tok.take n

/-! ### The lookup -/

variable {ι : Type*}

/-- What `on_match` returns and leaves in its arguments. -/
structure Match (ι : Type*) where
  hit : Option ι
  root : ι
  tok : List Char
  tokLen : ℕ

/-- `on_match`, with empty name caches. -/
def onMatch (t : DirentTree ι) (curr : ι) (tok : List Char) (tokLen : ℕ) : Match ι :=
  let newtok := tok.drop (strSearch tok '/')
  if newtok = [] then ⟨some curr, curr, tok, tokLen⟩
  else if t.children curr = [] then ⟨none, curr, tok, tokLen⟩
  else
    ⟨none, (t.mounted curr).getD curr, newtok, tokenLen newtok (currentPathLen newtok)⟩

/-- The variables of the search loop. -/
structure Search (ι : Type*) where
  root : Option ι
  tok : List Char
  tokLen : ℕ

/-- One round of the loop of `VfsH_DirentLookupFrom`. -/
def round (t : DirentTree ι) (s : Search ι) : Loop.Round (Search ι) (Option ι) :=
  match s.root with
  | none => .done none
  | some root =>
    if compareStringNC (t.name root) s.tok s.tokLen then
      let m := onMatch t root s.tok s.tokLen
      match m.hit with
      | some what => .done (some what)
      | none => .again ⟨(t.children root).head?, m.tok, m.tokLen⟩
    else
      match (t.children root).find? fun c => compareStringNC (t.name c) s.tok s.tokLen with
      | some curr =>
        let m := onMatch t curr s.tok s.tokLen
        match m.hit with
        | some what => .done (some what)
        | none => .again ⟨some m.root, m.tok, m.tokLen⟩
      | none => .again ⟨t.parent root, s.tok, s.tokLen⟩

/-- `VfsH_DirentLookupFrom`, with a bound on the rounds of its loop. -/
def direntLookupFrom (t : DirentTree ι) (fuel : ℕ) (path : List Char) (root : ι) :
    Option (Option ι) :=
  if path = [] then some none
  else
    let tok := path.dropWhile (· == '/')
    -- behind slashes alone the length goes down from zero over them; no slash is in front of `path`
    let tokLen := if tok = [] then 2 ^ 64 - path.length else tokenLen tok tok.length
    if tokLen = 0 then some none else Loop.run (round t) fuel ⟨some root, tok, tokLen⟩

/-! ### Paths and their meaning -/

/-- A non-empty name without a slash. -/
structure Component where
  text : List Char
  ne_nil : text ≠ []
  no_slash : '/' ∉ text

/-- Components separated by one or more slashes: `rest` has one less than the
number of slashes before each component. -/
structure Path where
  lead : ℕ
  first : Component
  rest : List (ℕ × Component)
  trail : ℕ

/-- The text that follows a component. -/
def tailText (trail : ℕ) : List (ℕ × Component) → List Char
  | [] => List.replicate trail '/'
  | (k, c) :: rest => List.replicate (k + 1) '/' ++ (c.text ++ tailText trail rest)

namespace Path

def text (p : Path) : List Char :=
  List.replicate p.lead '/' ++ (p.first.text ++ tailText p.trail p.rest)

def components (p : Path) : List (List Char) := p.first.text :: p.rest.map (·.2.text)

end Path

/-- The first child of that name. -/
def childNamed (t : DirentTree ι) (d : ι) (c : List Char) : Option ι :=
  (t.children d).find? fun k => t.name k == c

/-- Descend one component at a time. -/
def descend (t : DirentTree ι) : ι → List (List Char) → Option ι
  | d, [] => some d
  | d, c :: cs =>
    match childNamed t d c with
    | some e => descend t e cs
    | none => none

/-- No dirent that the descent passes through has a file system mounted on it. -/
def NoMountOn (t : DirentTree ι) : ι → List (List Char) → Prop
  | _, [] => True
  | d, c :: cs => ∀ e, childNamed t d c = some e → (cs ≠ [] → t.mounted e = none) ∧ NoMountOn t e cs

/-- `a` is a proper ancestor of `d`. -/
def Above (t : DirentTree ι) (d a : ι) : Prop :=
  Relation.TransGen (fun x y => t.parent x = some y) d a

/-- No dirent of the descent is named like the component looked up in it, and
where the descent stops, nothing above has that name or a child of that name. -/
def Straight (t : DirentTree ι) : ι → List (List Char) → Prop
  | _, [] => True
  | d, c :: cs => t.name d ≠ c ∧
      (∀ e, childNamed t d c = some e → t.children e ≠ [] → Straight t e cs) ∧
      (childNamed t d c = none → ∀ a, Above t d a → t.name a ≠ c ∧ childNamed t a c = none)

/-! ### The tokenizer -/

section Tokenizer

variable {c w : List Char}

theorem findIdx?_no_slash (hc : '/' ∉ c) : c.findIdx? (· == '/') = none := by
  rw [List.findIdx?_eq_none_iff]
  intro x hx
  have hne : x ≠ '/' := fun he => hc (he ▸ hx)
  simpa using hne

theorem strchr_last (hc : '/' ∉ c) : strchr c '/' = c.length := by
  rw [strchr, findIdx?_no_slash hc]

theorem strchr_slash (hc : '/' ∉ c) : strchr (c ++ '/' :: w) '/' = c.length + 1 := by
  have hidx : (c ++ '/' :: w).findIdx? (· == '/') = some c.length := by
    rw [List.findIdx?_append, findIdx?_no_slash hc]
    simp [List.findIdx?_cons]
  rw [strchr, hidx]

/-- `str_search` skips the slashes that `strchr` found the first of. -/
theorem drop_strSearch (s : List Char) :
    s.drop (strSearch s '/') = (s.drop (strchr s '/')).dropWhile (· == '/') := by
  have hdrop : ∀ l : List Char, l.drop (l.takeWhile (· == '/')).length = l.dropWhile (· == '/') := by
    intro l
    calc l.drop (l.takeWhile (· == '/')).length
        = (l.takeWhile (· == '/') ++ l.dropWhile (· == '/')).drop
            (l.takeWhile (· == '/')).length := by rw [takeWhile_append_dropWhile]
      _ = l.dropWhile (· == '/') := drop_left
  rw [strSearch, ← drop_drop, hdrop]

theorem dropWhile_slashes (k : ℕ) (s : List Char) :
    (List.replicate k '/' ++ s).dropWhile (· == '/') = s.dropWhile (· == '/') := by
  refine dropWhile_append_of_pos fun a ha => ?_
  rw [eq_of_mem_replicate ha]
  rfl

/-- A component starts with no slash. -/
theorem dropWhile_component (c : Component) (s : List Char) :
    (c.text ++ s).dropWhile (· == '/') = c.text ++ s := by
  obtain ⟨a, as, has⟩ := exists_cons_of_ne_nil c.ne_nil
  have ha : a ≠ '/' := by
    intro he
    exact c.no_slash (by rw [has, he]; exact mem_cons_self)
  rw [has, cons_append, dropWhile_cons_of_neg (by simpa using ha)]

/-- What follows a component is nothing or starts with a slash. -/
theorem tailText_cases (trail : ℕ) (rest : List (ℕ × Component)) :
    tailText trail rest = [] ∧ rest = [] ∨ ∃ w, tailText trail rest = '/' :: w := by
  cases rest with
  | nil =>
    cases trail with
    | zero => exact Or.inl ⟨rfl, rfl⟩
    | succ n => exact Or.inr ⟨_, rfl⟩
  | cons kc rest => exact Or.inr ⟨_, rfl⟩

/-- The token after the first one, and the empty text after the last one. -/
def nextText (trail : ℕ) : List (ℕ × Component) → List Char
  | [] => []
  | (_, c) :: rest => c.text ++ tailText trail rest

section

variable (c : Component)

theorem drop_strSearch_token (trail : ℕ) (rest : List (ℕ × Component)) :
    (c.text ++ tailText trail rest).drop (strSearch (c.text ++ tailText trail rest) '/') =
      nextText trail rest := by
  rw [drop_strSearch]
  obtain ⟨htail, hrest⟩ | ⟨w, hw⟩ := tailText_cases trail rest
  · rw [htail, hrest, append_nil, strchr_last c.no_slash, drop_length]
    rfl
  · have hdrop : (c.text ++ '/' :: w).drop (c.text.length + 1) = w := by
      rw [← drop_drop, drop_left]
      rfl
    rw [hw, strchr_slash c.no_slash, hdrop]
    -- `w` is the text behind the first slash
    cases rest with
    | nil =>
      obtain ⟨n, rfl⟩ : ∃ n, trail = n + 1 := by
        cases trail with
        | zero => exact absurd hw (by simp [tailText])
        | succ n => exact ⟨n, rfl⟩
      obtain rfl : List.replicate n '/' = w := List.cons.inj hw |>.2
      have := dropWhile_slashes n []
      rwa [append_nil] at this
    | cons kc rest =>
      obtain ⟨k, d⟩ := kc
      obtain rfl : List.replicate k '/' ++ (d.text ++ tailText trail rest) = w :=
        List.cons.inj hw |>.2
      rw [dropWhile_slashes, dropWhile_component]
      rfl

theorem dropSlashes_succ_of_ne {tok : List Char} {n : ℕ} (h : tok[n]? ≠ some '/') :
    dropSlashes tok (n + 1) = n + 1 := by
  rw [dropSlashes, if_neg h]

/-- The last character of a component is no slash. -/
theorem getElem?_last_component (s : List Char) :
    (c.text ++ s)[c.text.length - 1]? ≠ some '/' := by
  have hpos : 0 < c.text.length := length_pos_iff.mpr c.ne_nil
  rw [List.getElem?_append_left (by omega)]
  intro h
  exact c.no_slash (mem_of_getElem? h)

theorem dropSlashes_component (s : List Char) :
    dropSlashes (c.text ++ s) c.text.length = c.text.length := by
  obtain ⟨n, hn⟩ : ∃ n, c.text.length = n + 1 :=
    Nat.exists_eq_succ_of_ne_zero (by simpa using c.ne_nil)
  have hlast := getElem?_last_component c s
  rw [hn, Nat.add_sub_cancel] at hlast
  rw [hn]
  exact dropSlashes_succ_of_ne hlast

/-- Before a slash the token length is right whatever it is compared with. -/
theorem tokenLen_slash (w : List Char) (whole : ℕ) :
    tokenLen (c.text ++ '/' :: w) whole = c.text.length := by
  have hslash : (c.text ++ '/' :: w)[c.text.length]? = some '/' := by
    rw [List.getElem?_append_right le_rfl, Nat.sub_self]
    rfl
  rw [tokenLen, strchr_slash c.no_slash]
  by_cases hw : c.text.length + 1 ≠ whole
  · rw [if_pos hw]
    exact dropSlashes_component c _
  · rw [if_neg hw, dropSlashes, if_pos hslash]
    exact dropSlashes_component c _

/-- At the end of the path the token is the whole rest. -/
theorem tokenLen_last : tokenLen c.text c.text.length = c.text.length := by
  have hdrop := dropSlashes_component c []
  rw [append_nil] at hdrop
  rw [tokenLen, strchr_last c.no_slash, if_neg (not_not.mpr rfl)]
  exact hdrop

theorem currentPathLen_last : currentPathLen c.text = c.text.length := by
  have hpos : 0 < c.text.length := length_pos_iff.mpr c.ne_nil
  have hlast := getElem?_last_component c []
  rw [append_nil] at hlast
  rw [currentPathLen, if_pos hlast, Nat.sub_add_cancel hpos]
  obtain ⟨n, hn⟩ : ∃ n, c.text.length = n + 1 := Nat.exists_eq_succ_of_ne_zero (by omega)
  have hend : c.text[n + 1]? ≠ some '/' := by
    rw [List.getElem?_eq_none (by omega)]
    simp
  rw [hn, backSlashes, if_neg hend]

/-- Both ways to compute a token length give the length of the component. -/
theorem tokenLen_component (trail : ℕ) (rest : List (ℕ × Component)) :
    tokenLen (c.text ++ tailText trail rest) (c.text ++ tailText trail rest).length =
      c.text.length ∧
    tokenLen (c.text ++ tailText trail rest) (currentPathLen (c.text ++ tailText trail rest)) =
      c.text.length := by
  obtain ⟨htail, -⟩ | ⟨w, hw⟩ := tailText_cases trail rest
  · rw [htail, append_nil, currentPathLen_last]
    exact ⟨tokenLen_last c, tokenLen_last c⟩
  · rw [hw]
    exact ⟨tokenLen_slash c w _, tokenLen_slash c w _⟩

end

/-- At a token, names are compared with the component. -/
theorem compareStringNC_component (name : List Char) (c : Component) (s : List Char) :
    compareStringNC name (c.text ++ s) c.text.length = (name == c.text) := by
  rw [compareStringNC, take_left]
  by_cases h : name = c.text
  · simp [h]
  · simp [h]

end Tokenizer

/-! ### The search loop -/

section Search

variable (t : DirentTree ι) (trail : ℕ)

/-- The loop stands on `d` and looks for the component `c`. -/
def lookingFor (d : ι) (c : Component) (rest : List (ℕ × Component)) : Search ι :=
  ⟨some d, c.text ++ tailText trail rest, c.text.length⟩

variable {t trail} {d e : ι} {c : Component} {rest : List (ℕ × Component)}

/-- Climb when neither the dirent nor a child has the name. -/
theorem round_climb (trail : ℕ) (rest : List (ℕ × Component)) (hname : t.name d ≠ c.text)
    (hchild : childNamed t d c.text = none) :
    round t (lookingFor trail d c rest) =
      .again ⟨t.parent d, c.text ++ tailText trail rest, c.text.length⟩ := by
  simp only [round, lookingFor, compareStringNC_component]
  rw [if_neg (by simpa using hname)]
  rw [childNamed] at hchild
  rw [hchild]

/-- A child of the name is what `on_match` is called with. -/
theorem round_child (trail : ℕ) (rest : List (ℕ × Component)) (hname : t.name d ≠ c.text)
    (hchild : childNamed t d c.text = some e) :
    round t (lookingFor trail d c rest) =
      (let m := onMatch t e (c.text ++ tailText trail rest) c.text.length
       match m.hit with
       | some what => .done (some what)
       | none => .again ⟨some m.root, m.tok, m.tokLen⟩) := by
  simp only [round, lookingFor, compareStringNC_component]
  rw [if_neg (by simpa using hname)]
  rw [childNamed] at hchild
  rw [hchild]

/-- The dirent itself has the name. -/
theorem round_own (trail : ℕ) (rest : List (ℕ × Component)) (hname : t.name d = c.text) :
    round t (lookingFor trail d c rest) =
      (let m := onMatch t d (c.text ++ tailText trail rest) c.text.length
       match m.hit with
       | some what => .done (some what)
       | none => .again ⟨(t.children d).head?, m.tok, m.tokLen⟩) := by
  simp only [round, lookingFor, compareStringNC_component]
  rw [if_pos (by simpa using hname)]

theorem onMatch_last (e : ι) (c : Component) (n : ℕ) :
    (onMatch t e (c.text ++ tailText trail []) n).hit = some e := by
  have hnew := drop_strSearch_token c trail []
  rw [onMatch, hnew]
  rfl

theorem nextText_cons_ne_nil (k : ℕ) (c : Component) (rest : List (ℕ × Component)) :
    nextText trail ((k, c) :: rest) ≠ [] := by
  intro h
  exact c.ne_nil (append_eq_nil_iff.mp h).1

/-- A file in the middle of a path is not descended into, and the token stays. -/
theorem onMatch_leaf (k : ℕ) (c' : Component) (n : ℕ) (he : t.children e = []) :
    onMatch t e (c.text ++ tailText trail ((k, c') :: rest)) n =
      ⟨none, e, c.text ++ tailText trail ((k, c') :: rest), n⟩ := by
  simp only [onMatch, drop_strSearch_token]
  rw [if_neg (nextText_cons_ne_nil k c' rest), if_pos he]

theorem onMatch_next (k : ℕ) (c' : Component) (n : ℕ) (he : t.children e ≠ [])
    (hm : t.mounted e = none) :
    onMatch t e (c.text ++ tailText trail ((k, c') :: rest)) n =
      ⟨none, e, c'.text ++ tailText trail rest, c'.text.length⟩ := by
  simp only [onMatch, drop_strSearch_token]
  rw [if_neg (nextText_cons_ne_nil k c' rest), if_neg he, hm]
  have hlen := (tokenLen_component c' trail rest).2
  rw [nextText, hlen]
  rfl

/-- Without a match at `d` or above it, the loop climbs to the root and gives up. -/
theorem returns_none_of_climb (hd : t.name d ≠ c.text ∧ childNamed t d c.text = none)
    (habove : ∀ a, Above t d a → t.name a ≠ c.text ∧ childNamed t a c.text = none) :
    Loop.Returns (round t) (lookingFor trail d c rest) none := by
  induction hn : t.depth d using Nat.strong_induction_on generalizing d with
  | _ n ih =>
    cases hp : t.parent d with
    | none =>
      have hround := round_climb trail rest hd.1 hd.2
      rw [hp] at hround
      exact Loop.Returns.of_again hround (Loop.Returns.of_done rfl)
    | some p =>
      have hround := round_climb trail rest hd.1 hd.2
      rw [hp] at hround
      refine Loop.Returns.of_again hround ?_
      have hlt : t.depth p < n := hn ▸ t.depth_parent hp
      refine ih _ hlt (habove p (Relation.TransGen.single hp)) (fun a ha => ?_) rfl
      exact habove a (Relation.TransGen.head hp ha)

theorem childNamed_leaf (he : t.children e = []) (c : List Char) : childNamed t e c = none := by
  rw [childNamed, he]
  rfl

/-- A file in the middle of the path ends the loop: its own name matches once
more, and it has no first child to go on with. -/
theorem returns_none_of_leaf (k : ℕ) (c' : Component) (hname : t.name e = c.text)
    (he : t.children e = []) :
    Loop.Returns (round t) (lookingFor trail e c ((k, c') :: rest)) none := by
  have hround := round_own trail ((k, c') :: rest) hname
  rw [onMatch_leaf k c' _ he, he] at hround
  exact Loop.Returns.of_again hround (Loop.Returns.of_done rfl)

theorem name_childNamed {c : List Char} (h : childNamed t d c = some e) : t.name e = c := by
  have := List.find?_some h
  simpa using this

/-- The loop does what the descent does, component by component. -/
theorem returns_descend (trail : ℕ) (hm : NoMountOn t d (c.text :: rest.map (·.2.text)))
    (hs : Straight t d (c.text :: rest.map (·.2.text))) :
    Loop.Returns (round t) (lookingFor trail d c rest)
      (descend t d (c.text :: rest.map (·.2.text))) := by
  induction rest generalizing d c with
  | nil =>
    obtain ⟨hname, hdown, hup⟩ := hs
    rw [descend]
    cases hchild : childNamed t d c.text with
    | none => exact returns_none_of_climb ⟨hname, hchild⟩ (hup hchild)
    | some e =>
      have hround := round_child trail [] hname hchild
      simp only [onMatch_last] at hround
      exact Loop.Returns.of_done hround
  | cons kc rest ih =>
    obtain ⟨k, c'⟩ := kc
    obtain ⟨hname, hdown, hup⟩ := hs
    rw [map_cons] at hm hdown ⊢
    rw [descend]
    cases hchild : childNamed t d c.text with
    | none => exact returns_none_of_climb ⟨hname, hchild⟩ (hup hchild)
    | some e =>
      obtain ⟨hmount, hm'⟩ := hm e hchild
      have hround := round_child trail ((k, c') :: rest) hname hchild
      by_cases he : t.children e = []
      · rw [onMatch_leaf k c' _ he] at hround
        simp only [descend, childNamed_leaf he]
        exact Loop.Returns.of_again hround (returns_none_of_leaf k c' (name_childNamed hchild) he)
      · rw [onMatch_next k c' _ he (hmount (by simp))] at hround
        exact Loop.Returns.of_again hround (ih hm' (hdown e hchild he))

end Search

/-! ### The loop ends -/

section Termination

variable {t : DirentTree ι}

theorem strSearch_pos {tok : List Char} (h : tok ≠ []) : 0 < strSearch tok '/' := by
  have hpos : 0 < tok.length := length_pos_iff.mpr h
  have hchr : 0 < strchr tok '/' := by
    rw [strchr]
    split
    · exact Nat.succ_pos _
    · exact hpos
  exact Nat.lt_of_lt_of_le hchr (Nat.le_add_right _ _)

/-- A match without a result leaves the search where it is at a file, or moves
on in the path. -/
theorem onMatch_hit_none {curr : ι} {tok : List Char} {n : ℕ}
    (h : (onMatch t curr tok n).hit = none) :
    (t.children curr = [] ∧ onMatch t curr tok n = ⟨none, curr, tok, n⟩) ∨
      (onMatch t curr tok n).tok.length < tok.length := by
  simp only [onMatch] at h ⊢
  by_cases hnew : tok.drop (strSearch tok '/') = []
  · rw [if_pos hnew] at h
    cases h
  · rw [if_neg hnew]
    by_cases hc : t.children curr = []
    · rw [if_pos hc]
      exact Or.inl ⟨hc, rfl⟩
    · rw [if_neg hc]
      have htok : tok ≠ [] := by
        rintro rfl
        exact hnew drop_nil
      have hpos := strSearch_pos htok
      have hlen : 0 < tok.length := length_pos_iff.mpr htok
      refine Or.inr ?_
      rw [length_drop]
      omega

/-- The length of the rest of the path, then how far the loop can still climb;
a dirent that matches itself comes before every climb. -/
def searchMeasure (t : DirentTree ι) (s : Search ι) : ℕ × ℕ :=
  (s.tok.length,
    match s.root with
    | none => 0
    | some d => if compareStringNC (t.name d) s.tok s.tokLen then 1 else t.depth d + 2)

theorem searchMeasure_round {s s' : Search ι} (h : round t s = .again s') :
    Prod.Lex (· < ·) (· < ·) (searchMeasure t s') (searchMeasure t s) := by
  obtain ⟨root, tok, n⟩ := s
  cases root with
  | none => exact absurd h (by simp [round])
  | some d =>
    simp only [round] at h
    by_cases hown : compareStringNC (t.name d) tok n
    · rw [if_pos hown] at h
      cases hhit : (onMatch t d tok n).hit with
      | some what => simp [hhit] at h
      | none =>
        simp only [hhit, Loop.Round.again.injEq] at h
        subst h
        obtain ⟨hc, hm⟩ | hlt := onMatch_hit_none hhit
        · -- a file that matches itself has no first child
          rw [hm, hc]
          refine Prod.Lex.right _ ?_
          simp [hown]
        · exact Prod.Lex.left _ _ hlt
    · rw [if_neg hown] at h
      cases hfind : (t.children d).find? fun c => compareStringNC (t.name c) tok n with
      | some curr =>
        have hmatch : compareStringNC (t.name curr) tok n = true := by
          have hsome := List.find?_some hfind
          exact hsome
        cases hhit : (onMatch t curr tok n).hit with
        | some what => simp [hfind, hhit] at h
        | none =>
          simp only [hfind, hhit, Loop.Round.again.injEq] at h
          subst h
          obtain ⟨-, hm⟩ | hlt := onMatch_hit_none hhit
          · rw [hm]
            refine Prod.Lex.right _ ?_
            simp only [hmatch, if_true, if_neg hown]
            omega
          · exact Prod.Lex.left _ _ hlt
      | none =>
        simp only [hfind, Loop.Round.again.injEq] at h
        subst h
        refine Prod.Lex.right _ ?_
        simp only [if_neg hown]
        cases hp : t.parent d with
        | none => exact Nat.succ_pos _
        | some p =>
          have hlt := t.depth_parent hp
          show (if compareStringNC (t.name p) tok n then 1 else t.depth p + 2) < t.depth d + 2
          split <;> omega

/-- From every state the loop returns. -/
theorem round_returns (t : DirentTree ι) (s : Search ι) : ∃ r, Loop.Returns (round t) s r :=
  Loop.exists_returns (inferInstance : WellFoundedRelation (ℕ × ℕ)).wf (searchMeasure t)
    (fun _ _ h => searchMeasure_round h) s

/-- In every tree, for every path and start, `VfsH_DirentLookupFrom` returns. -/
theorem direntLookupFrom_returns (t : DirentTree ι) (path : List Char) (root : ι) :
    ∃ r N, ∀ fuel, N ≤ fuel → direntLookupFrom t fuel path root = some r := by
  by_cases hpath : path = []
  · exact ⟨none, 0, fun _ _ => if_pos hpath⟩
  simp only [direntLookupFrom, hpath, if_false]
  split_ifs
  · exact ⟨none, 0, fun _ _ => rfl⟩
  · exact round_returns t _
  · exact ⟨none, 0, fun _ _ => rfl⟩
  · exact round_returns t _

end Termination

/-! ### The lookup and the descent -/

theorem direntLookupFrom_eq (t : DirentTree ι) (fuel : ℕ) (p : Path) (root : ι) :
    direntLookupFrom t fuel p.text root =
      Loop.run (round t) fuel (lookingFor p.trail root p.first p.rest) := by
  have htok : p.text.dropWhile (· == '/') = p.first.text ++ tailText p.trail p.rest := by
    rw [Path.text, dropWhile_slashes, dropWhile_component]
  have hne : p.first.text ++ tailText p.trail p.rest ≠ [] := by
    intro h
    exact p.first.ne_nil (append_eq_nil_iff.mp h).1
  have htext : p.text ≠ [] := by
    intro h
    rw [h] at htok
    exact hne htok.symm
  have hlen := (tokenLen_component p.first p.trail p.rest).1
  have hpos : p.first.text.length ≠ 0 := by simpa using p.first.ne_nil
  simp only [direntLookupFrom]
  rw [if_neg htext, htok, if_neg hne, hlen, if_neg hpos]
  rfl

/-- The lookup is the descent when no dirent on the way is named like the
component looked up in it and nothing above the end of the way is. -/
theorem lookup_eq_descend (t : DirentTree ι) (p : Path) (root : ι)
    (hm : NoMountOn t root p.components) (hs : Straight t root p.components) :
    ∃ N, ∀ fuel, N ≤ fuel →
      direntLookupFrom t fuel p.text root = some (descend t root p.components) := by
  obtain ⟨N, hN⟩ := returns_descend p.trail hm hs
  refine ⟨N, fun fuel hfuel => ?_⟩
  rw [direntLookupFrom_eq]
  exact hN fuel hfuel

/-- A directory that is named like the last component is returned itself,
whatever its children are. -/
theorem lookup_own_name (t : DirentTree ι) (p : Path) (root : ι) (hp : p.rest = [])
    (hname : t.name root = p.first.text) (fuel : ℕ) :
    direntLookupFrom t (fuel + 1) p.text root = some (some root) := by
  have hround := round_own p.trail [] hname
  simp only [onMatch_last] at hround
  rw [direntLookupFrom_eq, hp]
  exact Loop.run_succ_done hround fuel

/-- Three dirents `a`, `b` and `c`, each the only child of the one before. -/
def chainOfThree : DirentTree (Fin 3) where
  name d := [['a'], ['b'], ['c']].getD d []
  parent d := if d = 0 then none else some (d - 1)
  children d := if d = 2 then [] else [d + 1]
  mounted _ := none
  depth d := d
  parent_of_mem := by decide
  depth_parent := by decide

/-- The path `b//c`. -/
def pathBC : Path := ⟨0, ⟨['b'], by decide, by decide⟩, [(1, ⟨['c'], by decide, by decide⟩)], 0⟩

theorem lookup_chainOfThree :
    ∃ N, ∀ fuel, N ≤ fuel → direntLookupFrom chainOfThree fuel pathBC.text 0 = some (some 2) := by
  have hb : childNamed chainOfThree 0 ['b'] = some 1 := by decide
  have hc : childNamed chainOfThree 1 ['c'] = some 2 := by decide
  refine lookup_eq_descend chainOfThree pathBC 0 ?_ ?_
  · intro e he
    refine ⟨fun _ => rfl, ?_⟩
    intro e' he'
    exact ⟨fun _ => rfl, trivial⟩
  · refine ⟨by decide, fun e he _ => ?_, fun he => absurd (hb.symm.trans he) (by decide)⟩
    obtain rfl : 1 = e := Option.some.inj (hb.symm.trans he)
    exact ⟨by decide, fun _ _ _ => trivial, fun he => absurd (hc.symm.trans he) (by decide)⟩

/-- A directory `a` with a child `a`. -/
def sameNames : DirentTree (Fin 2) where
  name _ := ['a']
  parent d := if d = 0 then none else some 0
  children d := if d = 0 then [1] else []
  mounted _ := none
  depth d := d
  parent_of_mem := by decide
  depth_parent := by decide

/-- The path `a`. -/
def pathA : Path := ⟨0, ⟨['a'], by decide, by decide⟩, [], 0⟩

/-- Looking up `a` in the directory `a` gives the directory, not its child. -/
theorem lookup_ne_descend :
    NoMountOn sameNames 0 pathA.components ∧ descend sameNames 0 pathA.components = some 1 ∧
    ¬ ∃ N, ∀ fuel, N ≤ fuel →
      direntLookupFrom sameNames fuel pathA.text 0 = some (descend sameNames 0 pathA.components) := by
  refine ⟨fun e _ => ⟨fun _ => rfl, trivial⟩, by decide, ?_⟩
  rintro ⟨N, hN⟩
  have hlookup := hN (N + 1) (Nat.le_succ N)
  rw [lookup_own_name sameNames pathA 0 rfl rfl N] at hlookup
  cases hlookup

end Obos.Vfs
