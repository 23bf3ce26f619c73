import XmlDraft.Tree.Path
import Mathlib.Data.List.Nodup

/-!
# Ways to elements

The way to an element: from the top down, the name of each element on it, its place among the
siblings of that name, and their number.  A path shows a way without its namespaces.  Main
statements: the ways of a document lead to its elements, one to each; and two elements to which
ways lead that look the same are one, if the names on the ways are the same, or if nowhere two
siblings of one local part and of different namespaces look the same.
-/

namespace XmlDraft

/-- A name as names are compared, which is without the printed form of its local part. -/
def QName.key (q : QName) : QName :=
  { q with member := none }

theorem QName.same_iff {p q : QName} :
  p.same q ↔ p.key = q.key
  := by
  cases p
  cases q
  simp [same, key]

theorem QName.same_key (p q : QName) :
  p.key.same q = p.same q
  := rfl

theorem QName.eq_of_parts {p q : QName} (hlocal : p.localPart = q.localPart)
    (hspace : p.space = q.space) (hmember : p.member = q.member) :
  p = q
  := by
  cases p
  cases q
  simp_all

/-- A turn of a way, at one level: the name of the element that the way goes to, its place among
the siblings of that name, counted from one, and their number. -/
structure Turn where
  /-- The name. -/
  name : QName
  /-- The place. -/
  place : Nat
  /-- The number of siblings of the name. -/
  total : Nat
deriving DecidableEq

namespace Turn

/-- What a path shows of a turn: the local part, and the place where there are several. -/
def shown (t : Turn) : String × Option Nat :=
  (t.name.localPart, if 1 < t.total then some t.place else none)

/-- Turns look the same if the local parts are the same and both show the same place or none. -/
theorem shown_eq_iff {t t' : Turn} :
  t.shown = t'.shown
    ↔ t.name.localPart = t'.name.localPart ∧ (1 < t.total ↔ 1 < t'.total)
      ∧ (1 < t.total → t.place = t'.place)
  := by
  rw [shown, shown, Prod.mk.injEq]
  by_cases h : 1 < t.total <;> by_cases h' : 1 < t'.total <;> simp [h, h']

/-- The node to which a turn goes. -/
def child? (t : Turn) (ns : List Node) : Option Node :=
  (ns.filter fun n => n.name?.any t.name.same)[t.place - 1]?

end Turn

namespace Node

open Visit (countName)

/-! ### Ways in a tree -/

/-- The turn to a node of a name behind others among its siblings. -/
def turnTo (siblings before : List Node) (name : QName) : Turn :=
  ⟨name.key, countName name before + 1, countName name siblings⟩

mutual

/-- The ways from a node to the elements of its tree, in document order. -/
def ways : Node → List (List Turn)
  | .element _ _ children => [] :: waysAmong children [] children
  | .text _ => []
  | .cdata _ => []
  | .comment _ => []
  | .doctype _ => []

/-- The ways to the elements of the remaining ones of some siblings, those before being known. -/
def waysAmong (siblings before : List Node) : List Node → List (List Turn)
  | [] => []
  | n :: ns =>
    let here :=
      match n.name? with
      | some name => (ways n).map (turnTo siblings before name :: ·)
      | none => []
    here ++ waysAmong siblings (before ++ [n]) ns

end

/-- The node to which a way leads from another one. -/
def follow : List Turn → Node → Option Node
  | [], n => some n
  | t :: rest, n => (t.child? n.children).bind (follow rest)

/-- The node to which a way leads that begins with a turn to one of some siblings. -/
def followAmong (siblings : List Node) : List Turn → Option Node
  | [] => none
  | t :: rest => (t.child? siblings).bind (follow rest)

@[simp]
theorem countName_append (name : QName) (before after : List Node) :
  countName name (before ++ after) = countName name before + countName name after
  := List.countP_append

theorem countName_cons {n : Node} {name name' : QName} (hn : n.name? = some name)
    (hname : name.key = name'.key) (ns : List Node) :
  countName name' (n :: ns) = countName name' ns + 1
  := List.countP_cons_of_pos (by simpa [hn] using QName.same_iff.mpr hname.symm)

/-- Names that are the same are counted alike. -/
theorem countName_key {name name' : QName} (h : name.key = name'.key) (ns : List Node) :
  countName name ns = countName name' ns
  := by
  have hsame (q : QName) : name.same q = name'.same q := by
    rw [← QName.same_key, h, QName.same_key]
  unfold countName
  simp only [funext hsame]

/-- A way among siblings begins with the turn to one of them. -/
theorem mem_waysAmong {siblings before ns : List Node} {way : List Turn} :
  way ∈ waysAmong siblings before ns
    ↔ ∃ front n back name rest, ns = front ++ n :: back ∧ n.name? = some name ∧ rest ∈ n.ways
      ∧ way = turnTo siblings (before ++ front) name :: rest
  := by
  induction ns generalizing before with
  | nil => simp [waysAmong]
  | cons m ns ih =>
      rw [waysAmong, List.mem_append, ih]
      constructor
      · rintro (hhere | ⟨front, n, back, name, rest, rfl, hname, hrest, rfl⟩)
        · cases hm : m.name? with
          | none => simp [hm] at hhere
          | some name =>
              simp only [hm, List.mem_map] at hhere
              obtain ⟨rest, hrest, rfl⟩ := hhere
              exact ⟨[], m, ns, name, rest, rfl, hm, hrest, by simp⟩
        · exact ⟨m :: front, n, back, name, rest, rfl, hname, hrest, by simp⟩
      · rintro ⟨front, n, back, name, rest, heq, hname, hrest, rfl⟩
        cases front with
        | nil =>
            obtain ⟨rfl, rfl⟩ := List.cons.inj heq
            left
            simpa [hname] using hrest
        | cons k front =>
            obtain ⟨rfl, rfl⟩ := List.cons.inj heq
            exact .inr ⟨front, n, back, name, rest, rfl, hname, hrest, by simp⟩

theorem mem_ways {n : Node} {way : List Turn} :
  way ∈ n.ways ↔ n.isElement ∧ (way = [] ∨ way ∈ waysAmong n.children [] n.children)
  := by
  cases n <;> simp [ways, isElement, children]

theorem isElement_of_name {n : Node} {name : QName} (hn : n.name? = some name) :
  n.isElement
  := by
  cases n with
  | element => rfl
  | _ => cases hn

theorem mem_elementsList {m : Node} {ns : List Node} :
  m ∈ elementsList ns ↔ ∃ n ∈ ns, m ∈ n.elements
  := by
  induction ns with
  | nil => simp [elementsList]
  | cons n ns ih => simp [elementsList, ih]

/-- The names on a way are names of elements. -/
theorem exists_named {ns : List Node} {way : List Turn} (hway : way ∈ waysAmong ns [] ns) :
  ∀ t ∈ way, ∃ e ∈ elementsList ns, ∃ q, e.name? = some q ∧ t.name = q.key
  := by
  induction way generalizing ns with
  | nil => simp
  | cons t rest ih =>
      obtain ⟨front, n, back, name, _, hns, hn, hrest, heq⟩ := mem_waysAmong.mp hway
      obtain ⟨rfl, rfl⟩ := List.cons.inj heq
      have hinside {e : Node} (he : e ∈ n.elements) : e ∈ elementsList ns :=
        mem_elementsList.mpr ⟨n, hns ▸ List.mem_append_cons_self, he⟩
      cases n with
      | element q attributes children =>
          rw [List.forall_mem_cons]
          refine ⟨⟨_, hinside List.mem_cons_self, name, hn, rfl⟩, ?_⟩
          rcases (mem_ways.mp hrest).2 with rfl | hrest
          · simp
          · intro t ht
            obtain ⟨e, he, hname⟩ := ih hrest t ht
            exact ⟨e, hinside (List.mem_cons_of_mem _ he), hname⟩
      | _ => cases hn

/-- A sibling is known by its name and by the number of siblings of that name before it. -/
theorem sibling_unique {front back front' back' : List Node} {n n' : Node} {name name' : QName}
    (heq : front ++ n :: back = front' ++ n' :: back') (hn : n.name? = some name)
    (hn' : n'.name? = some name') (hname : name.key = name'.key)
    (hcount : countName name front = countName name front') :
  front = front' ∧ n = n'
  := by
  rcases List.append_eq_append_iff.mp heq with ⟨more, rfl, hrest⟩ | ⟨more, rfl, hrest⟩
  all_goals
    cases more with
    | nil =>
        obtain ⟨rfl, -⟩ := List.cons.inj hrest
        simp
    | cons m more =>
        obtain ⟨rfl, -⟩ := List.cons.inj hrest
        simp [countName_cons hn rfl, countName_cons hn' hname.symm] at hcount

/-! ### One way to each element -/

mutual

theorem nodup_ways (n : Node) :
  n.ways.Nodup
  := by
  cases n with
  | element name attributes children =>
      rw [ways, List.nodup_cons, mem_waysAmong]
      exact ⟨by simp, nodup_waysAmong children [] children⟩
  | _ => exact List.nodup_nil

theorem nodup_waysAmong (siblings before ns : List Node) :
  (waysAmong siblings before ns).Nodup
  := by
  cases ns with
  | nil => exact List.nodup_nil
  | cons n ns =>
      rw [waysAmong, List.nodup_append]
      refine ⟨?_, nodup_waysAmong siblings (before ++ [n]) ns, ?_⟩
      · cases n.name? with
        | none => exact List.nodup_nil
        | some name => exact (nodup_ways n).map (List.cons_injective)
      · intro way hway way' hway'
        rw [mem_waysAmong] at hway'
        obtain ⟨front, _, _, name', rest', -, -, -, rfl⟩ := hway'
        cases hn : n.name? with
        | none => simp [hn] at hway
        | some name =>
            simp only [hn, List.mem_map] at hway
            obtain ⟨rest, -, rfl⟩ := hway
            intro heq
            -- later siblings of the name have one more before them
            have hturn := (List.cons.inj heq).1
            simp only [turnTo, Turn.mk.injEq] at hturn
            obtain ⟨hname, hplace, -⟩ := hturn
            simp [countName_key hname.symm, countName_cons hn rfl] at hplace

end

/-! ### Following ways -/

theorem child?_turnTo {front back : List Node} {n : Node} {name : QName}
    (hn : n.name? = some name) (siblings : List Node) :
  (turnTo siblings front name).child? (front ++ n :: back) = some n
  := by
  have hlength : (front.filter fun m => m.name?.any name.same).length = countName name front :=
    List.countP_eq_length_filter.symm
  have hown : name.same name := QName.same_iff.mpr rfl
  simp only [Turn.child?, turnTo, funext (QName.same_key name)]
  rw [List.filter_append, List.filter_cons_of_pos (by simpa [hn] using hown)]
  simp [← hlength]

mutual

theorem map_follow (n : Node) :
  n.ways.map (follow · n) = n.elements.map some
  := by
  cases n with
  | element name attributes children =>
      have hbelow : (waysAmong children [] children).map
            (follow · (element name attributes children))
          = (waysAmong children [] children).map (followAmong children) := by
        apply List.map_congr_left
        intro way hway
        obtain ⟨front, n, back, name, rest, -, -, -, rfl⟩ := mem_waysAmong.mp hway
        rfl
      rw [ways, elements, List.map_cons, List.map_cons, hbelow]
      exact congrArg (some _ :: ·) (map_followAmong [] rfl)
  | _ => rfl

theorem map_followAmong {siblings : List Node} (before : List Node) {ns : List Node}
    (h : siblings = before ++ ns) :
  (waysAmong siblings before ns).map (followAmong siblings) = (elementsList ns).map some
  := by
  cases ns with
  | nil => rfl
  | cons n ns =>
      rw [waysAmong, elementsList, List.map_append, List.map_append,
        map_followAmong (before ++ [n]) (by simpa using h)]
      congr 1
      rw [← map_follow n]
      cases hn : n.name? with
      | none =>
          cases n with
          | element => cases hn
          | _ => rfl
      | some name =>
          simp only [List.map_map, h]
          apply List.map_congr_left
          intro way _
          simp [followAmong, child?_turnTo hn]

end

/-! ### Ways that look the same -/

/-- The names among nodes. -/
def names (ns : List Node) : List QName :=
  ns.filterMap name?

/-- Whether some of the siblings look the same on paths although their names differ: they have the
same local part in different namespaces, and each is the only one of its name or none is. -/
def HasTwins (ns : List Node) : Prop :=
  ∃ p ∈ names ns, ∃ q ∈ names ns, p.space ≠ q.space
    ∧ p.localPart = q.localPart ∧ (countName p ns = 1 ↔ countName q ns = 1)

instance (ns : List Node) : Decidable (HasTwins ns) :=
  inferInstanceAs (Decidable (∃ p ∈ names ns, ∃ q ∈ names ns, p.space ≠ q.space
    ∧ p.localPart = q.localPart ∧ (countName p ns = 1 ↔ countName q ns = 1)))

theorem mem_names {ns : List Node} {name : QName} :
  name ∈ names ns ↔ ∃ n ∈ ns, n.name? = some name
  := List.mem_filterMap

theorem countName_pos {ns : List Node} {name : QName} (h : name ∈ names ns) :
  0 < countName name ns
  := by
  obtain ⟨n, hn, hname⟩ := mem_names.mp h
  have hown : name.same name := QName.same_iff.mpr rfl
  exact List.countP_pos_iff.mpr ⟨n, hn, by simpa [hname] using hown⟩

/-- Turns to siblings of one name that look the same go to the same one. -/
theorem sibling_of_shown {ns front back front' back' : List Node} {n n' : Node}
    {name name' : QName} (hns : ns = front ++ n :: back) (hns' : ns = front' ++ n' :: back')
    (hn : n.name? = some name) (hn' : n'.name? = some name') (hname : name.key = name'.key)
    (hshown : (turnTo ns front name).shown = (turnTo ns front' name').shown) :
  front = front' ∧ n = n'
  := by
  apply sibling_unique (hns.symm.trans hns') hn hn' hname
  have htotal : countName name ns = countName name front + (countName name back + 1) := by
    rw [hns, countName_append, countName_cons hn rfl]
  have htotal' : countName name ns = countName name front' + (countName name back' + 1) := by
    rw [hns', countName_append, countName_cons hn' hname.symm]
  have hplace : 1 < countName name ns → countName name front + 1 = countName name' front' + 1 :=
    (Turn.shown_eq_iff.mp hshown).2.2
  rw [← countName_key hname] at hplace
  omega

/-- Among siblings without twins, turns that look the same go to siblings of the same name. -/
theorem name_of_shown {ns front front' : List Node} {name name' : QName} (htwins : ¬ HasTwins ns)
    (hname : name ∈ names ns) (hname' : name' ∈ names ns)
    (hshown : (turnTo ns front name).shown = (turnTo ns front' name').shown) :
  name.key = name'.key
  := by
  obtain ⟨hlocal, hseveral, -⟩ := Turn.shown_eq_iff.mp hshown
  change 1 < countName name ns ↔ 1 < countName name' ns at hseveral
  have hcount := countName_pos hname
  have hcount' := countName_pos hname'
  by_contra hne
  refine htwins ⟨name, hname, name', hname', fun hspace => hne ?_, hlocal, by omega⟩
  exact QName.eq_of_parts hlocal hspace rfl

/-- Two ways that look the same are one, if the names on them are the same, or if no siblings on
them have twins. -/
theorem way_of_shown {ns : List Node} {way way' : List Turn} (hway : way ∈ waysAmong ns [] ns)
    (hway' : way' ∈ waysAmong ns [] ns) (hshown : way.map Turn.shown = way'.map Turn.shown)
    (hnames : way.map Turn.name = way'.map Turn.name
      ∨ ¬ HasTwins ns ∧ ∀ e ∈ elementsList ns, ¬ HasTwins e.children) :
  way = way'
  := by
  induction way generalizing ns way' with
  | nil => simp [mem_waysAmong] at hway
  | cons t rest ih =>
      obtain ⟨front, n, back, name, _, hns, hn, hrest, heq⟩ := mem_waysAmong.mp hway
      obtain ⟨front', n', back', name', rest', hns', hn', hrest', rfl⟩ := mem_waysAmong.mp hway'
      obtain ⟨rfl, rfl⟩ := List.cons.inj heq
      rw [List.map_cons, List.map_cons, List.cons.injEq] at hshown
      obtain ⟨hturn, hshown⟩ := hshown
      have hmem : n ∈ ns := hns ▸ List.mem_append_cons_self
      have hmem' : n' ∈ ns := hns' ▸ List.mem_append_cons_self
      have hsame : name.key = name'.key := by
        rcases hnames with hnames | ⟨htwins, -⟩
        · exact (List.cons.inj hnames).1
        · exact name_of_shown htwins (mem_names.mpr ⟨n, hmem, hn⟩) (mem_names.mpr ⟨n', hmem', hn'⟩)
            hturn
      obtain ⟨rfl, rfl⟩ := sibling_of_shown hns hns' hn hn' hsame hturn
      obtain rfl : name = name' := Option.some.inj (hn.symm.trans hn')
      congr 1
      rw [mem_ways] at hrest hrest'
      rcases hrest.2 with rfl | hrest
      · simpa [eq_comm] using hshown
      rcases hrest'.2 with rfl | hrest'
      · simpa using hshown
      refine ih hrest hrest' hshown (hnames.imp (fun h => (List.cons.inj h).2) fun h => ?_)
      have hinside {e : Node} (he : e ∈ n.elements) : ¬ HasTwins e.children :=
        h.2 e (mem_elementsList.mpr ⟨n, hmem, he⟩)
      cases n with
      | element q attributes children =>
          exact ⟨hinside List.mem_cons_self, fun e he => hinside (List.mem_cons_of_mem _ he)⟩
      | _ => cases hn

/-! ### Ways to twins -/

mutual

/-- The way to an element goes on to the elements inside it. -/
theorem exists_way {e n : Node} (he : e ∈ n.elements) :
  ∃ way, ∀ rest ∈ e.ways, way ++ rest ∈ n.ways
  := by
  cases n with
  | element name attributes children =>
      rcases List.mem_cons.mp he with rfl | he
      · exact ⟨[], fun rest hrest => hrest⟩
      · obtain ⟨way, hway⟩ := exists_wayAmong children [] he
        exact ⟨way, fun rest hrest => List.mem_cons_of_mem _ (hway rest hrest)⟩
  | _ => cases he

theorem exists_wayAmong {e : Node} (siblings before : List Node) {ns : List Node}
    (he : e ∈ elementsList ns) :
  ∃ way, ∀ rest ∈ e.ways, way ++ rest ∈ waysAmong siblings before ns
  := by
  cases ns with
  | nil => cases he
  | cons n ns =>
      rcases List.mem_append.mp he with he | he
      · obtain ⟨way, hway⟩ := exists_way he
        cases hn : n.name? with
        | none =>
            cases n with
            | element => cases hn
            | _ => cases he
        | some name =>
            refine ⟨turnTo siblings before name :: way, fun rest hrest => ?_⟩
            rw [waysAmong, List.mem_append, hn]
            exact .inl (List.mem_map_of_mem (hway rest hrest))
      · obtain ⟨way, hway⟩ := exists_wayAmong siblings (before ++ [n]) he
        exact ⟨way, fun rest hrest => List.mem_append_right _ (hway rest hrest)⟩

end

/-- The way to the first one of the siblings of a name. -/
theorem way_to_first {ns : List Node} {name : QName} (h : name ∈ names ns) :
  [Turn.mk name.key 1 (countName name ns)] ∈ waysAmong ns [] ns
  := by
  obtain ⟨m, hm, hname⟩ := mem_names.mp h
  have hown : name.same name := QName.same_iff.mpr rfl
  have hfound : (ns.find? fun n => n.name?.any name.same).isSome :=
    List.find?_isSome.mpr ⟨m, hm, by simpa [hname] using hown⟩
  obtain ⟨n, hfind⟩ := Option.isSome_iff_exists.mp hfound
  obtain ⟨hn, front, back, hns, hfront⟩ := List.find?_eq_some_iff_append.mp hfind
  obtain ⟨first, hfirst, hsame⟩ := (Option.any_eq_true _ _).mp hn
  have hkey := QName.same_iff.mp hsame
  have hnone : countName name front = 0 := List.countP_eq_zero.mpr (by simpa using hfront)
  refine mem_waysAmong.mpr ⟨front, n, back, first, [], hns, hfirst, ?_, ?_⟩
  · exact mem_ways.mpr ⟨isElement_of_name hfirst, .inl rfl⟩
  · simp [turnTo, hkey, ← countName_key hkey, hnone]

/-- Different ways that look the same lead to the first ones of twins. -/
theorem ways_to_twins {ns : List Node} (h : HasTwins ns) :
  ∃ way ∈ waysAmong ns [] ns, ∃ way' ∈ waysAmong ns [] ns,
    way ≠ way' ∧ way.map Turn.shown = way'.map Turn.shown
  := by
  obtain ⟨p, hp, q, hq, hne, hlocal, hone⟩ := h
  refine ⟨_, way_to_first hp, _, way_to_first hq, fun heq => hne ?_, ?_⟩
  · have hkey : p.key = q.key := (Turn.mk.inj (List.head_eq_of_cons_eq heq)).1
    simpa [QName.key] using congrArg QName.space hkey
  have hcount := countName_pos hp
  have hcount' := countName_pos hq
  have hseveral : 1 < countName p ns ↔ 1 < countName q ns := by omega
  have hshown : (Turn.mk p.key 1 (countName p ns)).shown
      = (Turn.mk q.key 1 (countName q ns)).shown :=
    Turn.shown_eq_iff.mpr ⟨hlocal, hseveral, fun _ => rfl⟩
  rw [List.map_singleton, List.map_singleton, hshown]

end Node

end XmlDraft
