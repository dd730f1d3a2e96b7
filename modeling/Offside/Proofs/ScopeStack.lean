import Mathlib.Data.Finmap
import Offside.SymbolTable

/-!
# The stack of frames

A symbol table is a stack of finite maps from names. A table that keeps the innermost map apart from the ones around
it answers every request as that stack does, after any requests before, and so does the list of frames: a frame
that is closed is what it was opened with and what was declared in it since.
-/

namespace Offside

set_option autoImplicit false

/-- The names of a block and what they stand for. -/
abbrev NameMap := Finmap fun _ : String => Identifier

namespace Frame

variable {frame : Frame} {i : Identifier}

/-- Each name of the frame with its first declaration. -/
def nameMap (frame : Frame) : NameMap := (frame.map fun i => (⟨i.name, i⟩ : Sigma fun _ => Identifier)).toFinmap

theorem lookup_nameMap (frame : Frame) (name : String) : frame.nameMap.lookup name = lookup? name frame := by
  unfold nameMap
  rw [Finmap.dlookup_list_toFinmap]
  induction frame with
  | nil => rfl
  | cons i frame ih =>
    unfold lookup? at ih ⊢
    rw [List.map_cons, List.find?_cons]
    by_cases hi : i.name = name
    · subst hi
      rw [beq_self_eq_true]
      exact List.dlookup_cons_eq _ _ _
    · rw [beq_eq_false_iff_ne.mpr hi, List.dlookup_cons_ne _ _ (Ne.symm hi)]
      exact ih

theorem mem_nameMap {name : String} : name ∈ frame.nameMap ↔ (lookup? name frame).isSome := by
  rw [← Finmap.lookup_isSome, lookup_nameMap]

/-- A new name stands behind the others. -/
theorem nameMap_concat (h : lookup? i.name frame = none) :
    (frame ++ [i] : Frame).nameMap = frame.nameMap.insert i.name i := by
  refine Finmap.ext_lookup fun name => ?_
  rw [lookup_nameMap, lookup?, List.find?_append]
  by_cases hi : name = i.name
  · subst hi
    unfold lookup? at h
    rw [h, Finmap.lookup_insert]
    simp
  · rw [Finmap.lookup_insert_of_ne _ hi, lookup_nameMap, lookup?, List.find?_singleton,
      if_neg (by simpa using Ne.symm hi), Option.or_none]

end Frame

namespace SymbolTable

/-! ## Requests -/

/-- What is asked of a table whose frames are of type `F`. -/
inductive Request (F : Type) where
  | openFrame
  | reopen (frame : F)
  | close
  | declare (i : Identifier)
  | lookup (name : String)

inductive Answer (F : Type) where
  | done
  | closed (frame : Option F)
  | declared (accepted : Bool)
  | found (i : Option Identifier)

variable {F G : Type}

def Request.map (f : F → G) : Request F → Request G
  | openFrame => .openFrame
  | reopen frame => .reopen (f frame)
  | close => .close
  | declare i => .declare i
  | lookup name => .lookup name

def Answer.map (f : F → G) : Answer F → Answer G
  | done => .done
  | closed frame => .closed (frame.map f)
  | declared accepted => .declared accepted
  | found i => .found i

/-- The answer to a request, and the table behind it. -/
def answer (t : SymbolTable) : Request Frame → Answer Frame × SymbolTable
  | .openFrame => (.done, t.openFrame)
  | .reopen frame => (.done, t.reopen frame)
  | .close => (.closed t.close.1, t.close.2)
  | .declare i =>
    match t.declare? i with
    | some t' => (.declared true, t')
    | none => (.declared false, t)
  | .lookup name => (.found (t.lookup? name), t)

/-- The table that is left by the requests, beginning with an empty one. -/
def after (requests : List (Request Frame)) : SymbolTable :=
  requests.foldl (fun t r => (t.answer r).2) .empty

theorem after_concat (requests : List (Request Frame)) (r : Request Frame) :
    after (requests ++ [r]) = ((after requests).answer r).2 := by
  rw [after, List.foldl_append]
  rfl

/-! ## Stacks of maps -/

/-- How a stack of maps, the innermost one first, replies to a request, and what is left of it. -/
inductive Replies : List NameMap → Request NameMap → Answer NameMap → List NameMap → Prop where
  | openFrame {stack : List NameMap} : Replies stack .openFrame .done (∅ :: stack)
  | reopen {stack : List NameMap} {m : NameMap} : Replies stack (.reopen m) .done (m :: stack)
  | close {stack : List NameMap} {m : NameMap} : Replies (m :: stack) .close (.closed (some m)) stack
  | closeNone : Replies [] .close (.closed none) []
  | declare {stack : List NameMap} {m : NameMap} {i : Identifier} : i.name ∉ m →
      Replies (m :: stack) (.declare i) (.declared true) (m.insert i.name i :: stack)
  | taken {stack : List NameMap} {m : NameMap} {i : Identifier} : i.name ∈ m →
      Replies (m :: stack) (.declare i) (.declared false) (m :: stack)
  | declareNone {i : Identifier} : Replies [] (.declare i) (.declared false) []
  | found {stack inner outer : List NameMap} {m : NameMap} {name : String} {i : Identifier} :
      stack = inner ++ m :: outer → (∀ n ∈ inner, name ∉ n) → m.lookup name = some i →
      Replies stack (.lookup name) (.found (some i)) stack
  | missing {stack : List NameMap} {name : String} : (∀ m ∈ stack, name ∉ m) →
      Replies stack (.lookup name) (.found none) stack

/-- The map that a request opens. -/
def Request.opens? : Request NameMap → Option NameMap
  | openFrame => some ∅
  | reopen m => some m
  | _ => none

/-- What becomes of an open map by requests that leave it open: the frames that they open they close as well. -/
inductive Grows : NameMap → List (Request NameMap) → NameMap → Prop where
  | nil {m : NameMap} : Grows m [] m
  | declare {m m' : NameMap} {i : Identifier} {requests : List (Request NameMap)} : i.name ∉ m →
      Grows (m.insert i.name i) requests m' → Grows m (.declare i :: requests) m'
  | taken {m m' : NameMap} {i : Identifier} {requests : List (Request NameMap)} : i.name ∈ m →
      Grows m requests m' → Grows m (.declare i :: requests) m'
  | lookup {m m' : NameMap} {name : String} {requests : List (Request NameMap)} :
      Grows m requests m' → Grows m (.lookup name :: requests) m'
  | frame {m m' n n' : NameMap} {r : Request NameMap} {inside requests : List (Request NameMap)} :
      r.opens? = some n → Grows n inside n' → Grows m requests m' →
      Grows m (r :: (inside ++ .close :: requests)) m'

section Replies

variable {stack left left' : List NameMap} {r : Request NameMap} {a a' : Answer NameMap} {name : String}

/-- A name is looked up from the innermost map outwards. -/
theorem replies_lookup (stack : List NameMap) (name : String) :
    Replies stack (.lookup name) (.found (stack.findSome? (Finmap.lookup name))) stack := by
  cases h : stack.findSome? (Finmap.lookup name) with
  | none =>
    refine .missing fun m hm => ?_
    exact Finmap.lookup_eq_none.mp (List.findSome?_eq_none_iff.mp h m hm)
  | some i =>
    obtain ⟨inner, m, outer, hstack, hm, hinner⟩ := List.findSome?_eq_some_iff.mp h
    exact .found hstack (fun n hn => Finmap.lookup_eq_none.mp (hinner n hn)) hm

theorem Replies.lookup_eq (h : Replies stack (.lookup name) a left) :
    a = .found (stack.findSome? (Finmap.lookup name)) ∧ left = stack := by
  cases h with
  | found hstack hinner hm =>
    refine ⟨congrArg _ (Eq.symm ?_), rfl⟩
    exact List.findSome?_eq_some_iff.mpr
      ⟨_, _, _, hstack, hm, fun n hn => Finmap.lookup_eq_none.mpr (hinner n hn)⟩
  | missing hstack =>
    refine ⟨congrArg _ (Eq.symm ?_), rfl⟩
    exact List.findSome?_eq_none_iff.mpr fun m hm => Finmap.lookup_eq_none.mpr (hstack m hm)

/-- A stack of maps has one reply to a request. -/
theorem Replies.unique (h : Replies stack r a left) (h' : Replies stack r a' left') : a = a' ∧ left = left' := by
  cases r with
  | openFrame | reopen | close =>
    cases h <;> cases h' <;> exact ⟨rfl, rfl⟩
  | declare i =>
    cases h with
    | declare hi =>
      cases h' with
      | declare => exact ⟨rfl, rfl⟩
      | taken hi' => exact absurd hi' hi
    | taken hi =>
      cases h' with
      | declare hi' => exact absurd hi hi'
      | taken => exact ⟨rfl, rfl⟩
    | declareNone =>
      cases h'
      exact ⟨rfl, rfl⟩
  | lookup name =>
    obtain ⟨rfl, rfl⟩ := h.lookup_eq
    obtain ⟨rfl, rfl⟩ := h'.lookup_eq
    exact ⟨rfl, rfl⟩

/-- The frames of a table, read as maps, reply as a stack of maps does. -/
theorem replies_answer (t : SymbolTable) (r : Request Frame) :
    Replies (t.frames.map Frame.nameMap) (r.map Frame.nameMap) ((t.answer r).1.map Frame.nameMap)
      ((t.answer r).2.frames.map Frame.nameMap) := by
  obtain ⟨frames⟩ := t
  cases r with
  | openFrame => exact .openFrame
  | reopen frame => exact .reopen
  | close =>
    cases frames with
    | nil => exact .closeNone
    | cons frame outer => exact .close
  | declare i =>
    cases frames with
    | nil => exact .declareNone
    | cons frame outer =>
      unfold answer declare?
      dsimp only
      cases h : Frame.lookup? i.name frame with
      | none =>
        have hi : i.name ∉ frame.nameMap := by simp [Frame.mem_nameMap, h]
        have hdeclares := @Replies.declare (outer.map Frame.nameMap) _ i hi
        rw [← Frame.nameMap_concat h] at hdeclares
        exact hdeclares
      | some j =>
        have hi : i.name ∈ frame.nameMap := by simp [Frame.mem_nameMap, h]
        exact .taken hi
  | lookup name =>
    have hlookup := replies_lookup (frames.map Frame.nameMap) name
    rw [List.findSome?_map] at hlookup
    have hsame : Finmap.lookup name ∘ Frame.nameMap = Frame.lookup? name :=
      funext fun frame => Frame.lookup_nameMap frame name
    rw [hsame] at hlookup
    exact hlookup

end Replies

theorem Grows.append {m m' m'' : NameMap} {requests more : List (Request NameMap)} (h : Grows m requests m')
    (h' : Grows m' more m'') : Grows m (requests ++ more) m'' := by
  induction h with
  | nil => exact h'
  | declare hi _ ih => exact .declare hi (ih h')
  | taken hi _ ih => exact .taken hi (ih h')
  | lookup _ ih => exact .lookup (ih h')
  | frame hr hinside _ _ ih =>
    rw [List.cons_append, List.append_assoc, List.cons_append]
    exact .frame hr hinside (ih h')

/-- A map that is the innermost one after a request was opened by it, or stood there before and was declared in,
or stood behind the one that was closed. -/
theorem Replies.left_cases {stack outer : List NameMap} {m : NameMap} {r : Request NameMap} {a : Answer NameMap}
    (h : Replies stack r a (m :: outer)) :
    (r.opens? = some m ∧ stack = outer) ∨ (∃ n, stack = n :: outer ∧ Grows n [r] m) ∨
      (r = .close ∧ ∃ n, stack = n :: m :: outer) := by
  cases h with
  | openFrame | reopen => exact .inl ⟨rfl, rfl⟩
  | close => exact .inr (.inr ⟨rfl, _, rfl⟩)
  | declare hi => exact .inr (.inl ⟨_, rfl, .declare hi .nil⟩)
  | taken hi => exact .inr (.inl ⟨m, rfl, .taken hi .nil⟩)
  | found | missing => exact .inr (.inl ⟨m, rfl, .lookup .nil⟩)

end SymbolTable

/-! ## The innermost map apart -/

/-- A table that keeps the innermost map apart from the ones around it, of which the nearest one comes first. -/
structure SplitTable where
  enclosing : List NameMap
  current : Option NameMap

namespace SplitTable

open SymbolTable (Request Answer Replies Grows)

def empty : SplitTable := ⟨[], none⟩

/-- The open maps, the innermost one first. -/
def frames (t : SplitTable) : List NameMap := t.current.toList ++ t.enclosing

def depth (t : SplitTable) : Nat := t.enclosing.length + if t.current.isSome then 1 else 0

def reopen (m : NameMap) (t : SplitTable) : SplitTable :=
  match t.current with
  | some current => ⟨current :: t.enclosing, some m⟩
  | none => ⟨t.enclosing, some m⟩

def close (t : SplitTable) : Option NameMap × SplitTable :=
  (t.current, ⟨t.enclosing.tail, t.enclosing.head?⟩)

def declare (i : Identifier) (t : SplitTable) : Bool × SplitTable :=
  match t.current with
  | none => (false, t)
  | some m => if i.name ∈ m then (false, t) else (true, { t with current := some (m.insert i.name i) })

def lookup? (name : String) (t : SplitTable) : Option Identifier :=
  match t.current with
  | none => none
  | some m =>
    match m.lookup name with
    | some i => some i
    | none => t.enclosing.findSome? (Finmap.lookup name)

def answer (t : SplitTable) : Request NameMap → Answer NameMap × SplitTable
  | .openFrame => (.done, t.reopen ∅)
  | .reopen m => (.done, t.reopen m)
  | .close => (.closed t.close.1, t.close.2)
  | .declare i => (.declared (t.declare i).1, (t.declare i).2)
  | .lookup name => (.found (t.lookup? name), t)

def after (requests : List (Request NameMap)) : SplitTable :=
  requests.foldl (fun t r => (t.answer r).2) .empty

/-- There are no maps around if there is no innermost one. -/
def Linked (t : SplitTable) : Prop := t.current = none → t.enclosing = []

variable {t u : SplitTable} {r : Request NameMap}

/-! ### One request -/

theorem Linked.cases (h : t.Linked) :
    t = ⟨[], none⟩ ∨ ∃ m outer, t = ⟨outer, some m⟩ := by
  obtain ⟨outer, _ | m⟩ := t
  · obtain rfl : outer = [] := h rfl
    exact .inl rfl
  · exact .inr ⟨m, outer, rfl⟩

/-- The maps that are open decide how a table keeps them. -/
theorem Linked.eq_of_frames (ht : t.Linked) (hu : u.Linked) (h : t.frames = u.frames) : t = u := by
  rcases ht.cases with rfl | ⟨m, outer, rfl⟩ <;> rcases hu.cases with rfl | ⟨n, outer', rfl⟩
  · rfl
  · cases h
  · cases h
  · cases h
    rfl

theorem Linked.depth_eq (h : t.Linked) : t.depth = t.frames.length := by
  rcases h.cases with rfl | ⟨m, outer, rfl⟩
  · rfl
  · rfl

theorem Linked.lookup?_eq (h : t.Linked) (name : String) :
    t.lookup? name = t.frames.findSome? (Finmap.lookup name) := by
  rcases h.cases with rfl | ⟨m, outer, rfl⟩
  · rfl
  · show (match m.lookup name with
      | some i => some i
      | none => outer.findSome? (Finmap.lookup name)) = (m :: outer).findSome? (Finmap.lookup name)
    rw [List.findSome?_cons]
    cases m.lookup name <;> rfl

theorem frames_close (t : SplitTable) : t.close.2.frames = t.enclosing := by
  obtain ⟨_ | ⟨m, outer⟩, current⟩ := t <;> rfl

theorem linked_close (t : SplitTable) : t.close.2.Linked := by
  intro hnone
  obtain ⟨_ | ⟨m, outer⟩, current⟩ := t
  · rfl
  · cases hnone

/-- Either nothing changes, or the innermost map lacks the name and gets it. -/
theorem declare_cases (t : SplitTable) (i : Identifier) :
    t.declare i = (false, t) ∨ ∃ m, t.current = some m ∧ i.name ∉ m ∧
      t.declare i = (true, { t with current := some (m.insert i.name i) }) := by
  obtain ⟨outer, _ | m⟩ := t
  · exact .inl rfl
  · by_cases hi : i.name ∈ m
    · exact .inl (if_pos hi)
    · exact .inr ⟨m, rfl, hi, if_neg hi⟩

theorem declare_rejected {i : Identifier} (h : (t.declare i).1 = false) : (t.declare i).2 = t := by
  rcases t.declare_cases i with hsame | ⟨m, -, -, haccepted⟩
  · rw [hsame]
  · rw [haccepted] at h
    cases h

theorem linked_declare (h : t.Linked) (i : Identifier) : (t.declare i).2.Linked := by
  rcases t.declare_cases i with hsame | ⟨m, -, -, haccepted⟩
  · rwa [hsame]
  · rw [haccepted]
    exact nofun

theorem linked_reopen (m : NameMap) : (t.reopen m).Linked := by
  unfold reopen
  split <;> exact nofun

theorem linked_answer (h : t.Linked) (r : Request NameMap) : (t.answer r).2.Linked := by
  cases r with
  | openFrame => exact linked_reopen ∅
  | reopen m => exact linked_reopen m
  | close => exact linked_close t
  | declare i => exact linked_declare h i
  | lookup => exact h

theorem frames_reopen (m : NameMap) : (t.reopen m).frames = m :: t.frames := by
  unfold reopen
  split
  · next current h => rw [frames, frames, h, Option.toList_some, Option.toList_some]; rfl
  · next h => rw [frames, frames, h, Option.toList_some, Option.toList_none]; rfl

/-- The table replies as the stack of its maps does. -/
theorem Linked.replies (h : t.Linked) (r : Request NameMap) :
    Replies t.frames r (t.answer r).1 (t.answer r).2.frames := by
  cases r with
  | openFrame =>
    unfold answer
    rw [frames_reopen]
    exact .openFrame
  | reopen m =>
    unfold answer
    rw [frames_reopen]
    exact .reopen
  | close =>
    unfold answer
    rcases h.cases with rfl | ⟨m, outer, rfl⟩
    · exact .closeNone
    · rw [frames_close]
      exact .close
  | declare i =>
    rcases h.cases with rfl | ⟨m, outer, rfl⟩
    · exact .declareNone
    · unfold answer declare
      dsimp only
      by_cases hi : i.name ∈ m
      · rw [if_pos hi]
        exact .taken hi
      · rw [if_neg hi]
        exact .declare hi
  | lookup name =>
    show Replies t.frames _ (.found (t.lookup? name)) t.frames
    rw [h.lookup?_eq]
    exact SymbolTable.replies_lookup t.frames name

theorem Linked.replies_iff (h : t.Linked) {a : Answer NameMap} {left : List NameMap} :
    Replies t.frames r a left ↔ a = (t.answer r).1 ∧ left = (t.answer r).2.frames := by
  constructor
  · exact fun hreplies => hreplies.unique (h.replies r)
  · rintro ⟨rfl, rfl⟩
    exact h.replies r

/-! ### Many requests -/

theorem after_concat (requests : List (Request NameMap)) (r : Request NameMap) :
    after (requests ++ [r]) = ((after requests).answer r).2 := by
  rw [after, List.foldl_append]
  rfl

theorem linked_after (requests : List (Request NameMap)) : (after requests).Linked := by
  induction requests using List.reverseRecOn with
  | nil => exact fun _ => rfl
  | append_singleton before r ih =>
    rw [after_concat]
    exact linked_answer ih r

/-- An open map is what it was opened with and what it has gained since then. -/
theorem exists_opened {requests : List (Request NameMap)} {m : NameMap} {outer : List NameMap}
    (h : (after requests).frames = m :: outer) :
    ∃ before r first inside, requests = before ++ r :: inside ∧ r.opens? = some first ∧
      Grows first inside m ∧ (after before).frames = outer := by
  rcases List.eq_nil_or_concat requests with rfl | ⟨earlier, r, rfl⟩
  · exact nomatch h
  · rw [List.concat_eq_append] at h ⊢
    rw [after_concat] at h
    have hreplies := (linked_after earlier).replies r
    rw [h] at hreplies
    rcases hreplies.left_cases with ⟨hopens, hearlier⟩ | ⟨n, hearlier, hgrows⟩ | ⟨rfl, n, hearlier⟩
    · exact ⟨earlier, r, m, [], rfl, hopens, .nil, hearlier⟩
    · obtain ⟨before, r', first, inside, rfl, hr', hinside, hbefore⟩ := exists_opened hearlier
      exact ⟨before, r', first, inside ++ [r], by simp, hr', hinside.append hgrows, hbefore⟩
    · -- The map that is closed was opened when the first one was the innermost, which was opened itself before.
      obtain ⟨middle, r', first', inside', rfl, hr', hinside', hmiddle⟩ := exists_opened hearlier
      obtain ⟨before, r'', first, inside, rfl, hr'', hinside, hbefore⟩ := exists_opened hmiddle
      refine ⟨before, r'', first, inside ++ r' :: (inside' ++ [.close]), by simp, hr'', ?_, hbefore⟩
      exact hinside.append (.frame hr' hinside' .nil)
termination_by requests.length
decreasing_by all_goals simp_all

/-- Tables with the same maps open answer alike and leave the same maps open. -/
theorem answer_of_frames {s : SymbolTable} (h : t.Linked) (hframes : t.frames = s.frames.map Frame.nameMap)
    (r : Request Frame) :
    (t.answer (r.map Frame.nameMap)).1 = (s.answer r).1.map Frame.nameMap ∧
      (t.answer (r.map Frame.nameMap)).2.frames = (s.answer r).2.frames.map Frame.nameMap := by
  have hreplies := h.replies (r.map Frame.nameMap)
  rw [hframes] at hreplies
  exact hreplies.unique (SymbolTable.replies_answer s r)

theorem frames_after (requests : List (Request Frame)) :
    (after (requests.map (Request.map Frame.nameMap))).frames =
      (SymbolTable.after requests).frames.map Frame.nameMap := by
  induction requests using List.reverseRecOn with
  | nil => rfl
  | append_singleton requests r ih =>
    rw [List.map_append, List.map_singleton, after_concat, SymbolTable.after_concat]
    exact (answer_of_frames (linked_after _) ih r).2

/-- After any requests, a table that keeps the innermost map apart has none around if it has none there, and answers
as the stack of its maps does, with the same maps left; a declaration that is not accepted changes nothing at all,
and a map that is closed is what it was opened with and gained since, the table being again as it was before. A symbol
table of the same requests has the same frames and answers alike. -/
theorem refines_stack :
    (∀ requests : List (Request Frame),
      (after (requests.map (Request.map Frame.nameMap))).frames =
          (SymbolTable.after requests).frames.map Frame.nameMap ∧
        (after (requests.map (Request.map Frame.nameMap))).depth = (SymbolTable.after requests).depth ∧
        ∀ r, ((after (requests.map (Request.map Frame.nameMap))).answer (r.map Frame.nameMap)).1 =
          ((SymbolTable.after requests).answer r).1.map Frame.nameMap) ∧
    ∀ requests : List (Request NameMap),
      (after requests).Linked ∧
      (after requests).depth = (after requests).frames.length ∧
      (∀ r a left, Replies (after requests).frames r a left ↔
        a = ((after requests).answer r).1 ∧ left = ((after requests).answer r).2.frames) ∧
      (∀ i, ((after requests).declare i).1 = false → ((after requests).declare i).2 = after requests) ∧
      ∀ m, (after requests).close.1 = some m → ∃ before r first inside,
        requests = before ++ r :: inside ∧ r.opens? = some first ∧ Grows first inside m ∧
          (after requests).close.2 = after before := by
  refine ⟨fun requests => ?_, fun requests => ?_⟩
  · have hlinked := linked_after (requests.map (Request.map Frame.nameMap))
    have hframes := frames_after requests
    refine ⟨hframes, ?_, fun r => (answer_of_frames hlinked hframes r).1⟩
    rw [hlinked.depth_eq, hframes, List.length_map]
    rfl
  · have hlinked := linked_after requests
    refine ⟨hlinked, hlinked.depth_eq, fun r a left => hlinked.replies_iff, fun i => declare_rejected, ?_⟩
    intro m hm
    have hframes : (after requests).frames = m :: (after requests).enclosing := by
      rw [frames, show (after requests).current = some m from hm]
      rfl
    obtain ⟨before, r, first, inside, hrequests, hr, hinside, hbefore⟩ := exists_opened hframes
    refine ⟨before, r, first, inside, hrequests, hr, hinside, ?_⟩
    refine (linked_close _).eq_of_frames (linked_after before) ?_
    rw [hbefore, frames_close]

/-- The frame of `y` is opened again inside the one of `x`, and `x` is declared in it once more. -/
theorem refines_stack_reopened :
    let x : Identifier := .constant ⟨"x", .int, ⟨"", 1, 1⟩⟩
    let y : Identifier := .constant ⟨"y", .int, ⟨"", 2, 5⟩⟩
    let m : NameMap := (∅ : NameMap).insert "y" y
    let requests : List (Request NameMap) := [.openFrame, .declare x, .reopen m, .declare x]
    ((after requests).declare y).1 = false ∧ ((after requests).declare y).2 = after requests ∧
      (after requests).close.1 = some (m.insert "x" x) ∧ ∃ before r first inside,
        requests = before ++ r :: inside ∧ r.opens? = some first ∧ Grows first inside (m.insert "x" x) ∧
          (after requests).close.2 = after before := by
  intro x y m requests
  obtain ⟨-, -, -, hrejected, hclosed⟩ := refines_stack.2 requests
  have hdeclare : ((after requests).declare y).1 = false := rfl
  have hclose : (after requests).close.1 = some (m.insert "x" x) := rfl
  exact ⟨hdeclare, hrejected y hdeclare, hclose, hclosed _ hclose⟩

end SplitTable

end Offside
