import XmlDraft.Proofs.Order
import XmlDraft.Proofs.Regular
import XmlDraft.Proofs.Ways

/-!
# Paths of elements

Of each element on the way to another one a path shows the local part of the name, and the place
among the siblings of the same qualified name where there are several.  Main statement: in every
document that was read, or that calls with checked names built, elements that share a path differ
in a namespace on the ways to them, and it is known just when all paths are different.
-/

namespace XmlDraft

/-! ### The text of a path -/

/-- A name whose local part holds no mark that divides paths. -/
def QName.IsPlain (q : QName) : Prop :=
  '/' ∉ q.localPart.toList ∧ '[' ∉ q.localPart.toList

namespace Turn

/-- The text of a turn in a path. -/
def text (t : Turn) : String :=
  t.name.localPart ++ (if 1 < t.total then "[" ++ Text.natText t.place ++ "]" else "")

end Turn

/-- The path of a way. -/
def pathText (parent : String) (way : List Turn) : String :=
  way.foldl (fun p t => p ++ "/" ++ t.text) parent

theorem Text.natText_injective :
  Function.Injective natText
  := by
  intro m n h
  have hdigits := String.ofList_injective h
  rw [← Nat.ofDigitChars_toDigits (b := 10) (n := m) (by decide) (by decide), hdigits,
    Nat.ofDigitChars_toDigits (by decide) (by decide)]

theorem Text.notMem_natText {c : Char} (hc : c.isDigit = false) (n : Nat) :
  c ∉ (natText n).toList
  := by
  intro hmem
  rw [natText, String.toList_ofList] at hmem
  rw [Nat.isDigit_of_mem_toDigits (by decide) (by decide) hmem] at hc
  cases hc

namespace Turn

/-- The parts of the text of a turn around its bracket. -/
def parts (t : Turn) : List (List Char) :=
  t.name.localPart.toList
    :: (if 1 < t.total then [(Text.natText t.place).toList ++ [']']] else [])

theorem toList_text (t : Turn) :
  t.text.toList = ['['].intercalate t.parts
  := by
  by_cases h : 1 < t.total <;> simp [text, parts, h, List.intercalate]

theorem bracket_notMem_parts {t : Turn} (h : t.name.IsPlain) :
  ∀ part ∈ t.parts, '[' ∉ part
  := by
  have hdigits := Text.notMem_natText (c := '[') (by decide) t.place
  by_cases hseveral : 1 < t.total <;> simp [parts, hseveral, h.2, hdigits]

theorem slash_notMem_text {t : Turn} (h : t.name.IsPlain) :
  '/' ∉ t.text.toList
  := by
  have hdigits := Text.notMem_natText (c := '/') (by decide) t.place
  by_cases hseveral : 1 < t.total <;> simp [text, hseveral, h.1, hdigits]

/-- The texts of plain turns are the same just if the turns look the same. -/
theorem text_eq_iff {t t' : Turn} (h : t.name.IsPlain) (h' : t'.name.IsPlain) :
  t.text = t'.text ↔ t.shown = t'.shown
  := by
  constructor
  · intro heq
    have hlists := congrArg String.toList heq
    rw [toList_text, toList_text] at hlists
    have hparts : t.parts = t'.parts := by
      rw [← List.splitOn_intercalate '[' (bracket_notMem_parts h) (List.cons_ne_nil _ _), hlists,
        List.splitOn_intercalate '[' (bracket_notMem_parts h') (List.cons_ne_nil _ _)]
    obtain ⟨hlocal, hplace⟩ := List.cons.inj hparts
    rw [shown_eq_iff]
    refine ⟨String.toList_inj.mp hlocal, ?_⟩
    by_cases hseveral : 1 < t.total <;> by_cases hseveral' : 1 < t'.total
      <;> simp [hseveral, hseveral'] at hplace ⊢
    exact Text.natText_injective (String.toList_inj.mp hplace)
  · intro heq
    obtain ⟨hlocal, hseveral, hplace⟩ := shown_eq_iff.mp heq
    by_cases hmany : 1 < t.total
    · simp [text, hlocal, hmany, hseveral.mp hmany, hplace hmany]
    · simp [text, hlocal, hmany, hseveral.not.mp hmany]

end Turn

theorem intercalate_append (separator front part : List Char) (others : List (List Char)) :
  separator.intercalate ((front ++ part) :: others)
    = front ++ separator.intercalate (part :: others)
  := by
  cases others <;> simp [List.intercalate]

/-- A path consists of the texts of the turns behind slashes. -/
theorem toList_pathText (parent : String) (way : List Turn) :
  (pathText parent way).toList
    = ['/'].intercalate (parent.toList :: way.map fun t => t.text.toList)
  := by
  induction way generalizing parent with
  | nil => simp [pathText, List.intercalate]
  | cons t rest ih =>
      have hstep : pathText parent (t :: rest) = pathText (parent ++ "/" ++ t.text) rest := rfl
      rw [hstep, ih, List.map_cons, List.intercalate_cons_cons, String.toList_append,
        intercalate_append, String.toList_append]
      rfl

/-- The names on ways that look the same differ in their namespaces alone. -/
theorem Turn.names_eq {way way' : List Turn} (h : ∀ t ∈ way, t.name.member = none)
    (h' : ∀ t ∈ way', t.name.member = none) (hshown : way.map shown = way'.map shown)
    (hspaces : way.map (fun t => t.name.space) = way'.map fun t => t.name.space) :
  way.map name = way'.map name
  := by
  induction way generalizing way' with
  | nil => simpa using hshown
  | cons t rest ih =>
      cases way' with
      | nil => simp at hshown
      | cons t' rest' =>
          rw [List.forall_mem_cons] at h h'
          simp only [List.map_cons, List.cons.injEq] at hshown hspaces ⊢
          obtain ⟨hlocal, -⟩ := shown_eq_iff.mp hshown.1
          exact ⟨QName.eq_of_parts hlocal hspaces.1 (h.1.trans h'.1.symm),
            ih h.2 h'.2 hshown.2 hspaces.2⟩

theorem Turn.texts_eq_iff {way way' : List Turn} (h : ∀ t ∈ way, t.name.IsPlain)
    (h' : ∀ t ∈ way', t.name.IsPlain) :
  way.map text = way'.map text ↔ way.map shown = way'.map shown
  := by
  induction way generalizing way' with
  | nil => simp
  | cons t rest ih =>
      cases way' with
      | nil => simp
      | cons t' rest' =>
          rw [List.forall_mem_cons] at h h'
          simp only [List.map_cons, List.cons.injEq, text_eq_iff h.1 h'.1, ih h.2 h'.2]

/-- Plain ways from the top have the same path just if their turns look the same. -/
theorem pathText_eq_iff {way way' : List Turn} (h : ∀ t ∈ way, t.name.IsPlain)
    (h' : ∀ t ∈ way', t.name.IsPlain) :
  pathText "" way = pathText "" way' ↔ way.map Turn.shown = way'.map Turn.shown
  := by
  have hsplit {way : List Turn} (h : ∀ t ∈ way, t.name.IsPlain) :
      List.splitOn '/' (pathText "" way).toList = [] :: (way.map Turn.text).map String.toList := by
    rw [toList_pathText, List.map_map]
    refine List.splitOn_intercalate '/' ?_ (List.cons_ne_nil _ _)
    simpa using fun t ht => Turn.slash_notMem_text (h t ht)
  rw [← Turn.texts_eq_iff h h']
  constructor
  · intro heq
    have hsame := hsplit h
    rw [heq, hsplit h'] at hsame
    exact (List.map_injective_iff.mpr fun _ _ => String.toList_inj.mp)
      (List.cons.inj hsame).2.symm
  · intro heq
    apply String.toList_inj.mp
    have hjoin (cs : List Char) : ['/'].intercalate (cs.splitOn '/') = cs :=
      List.intercalate_splitOn '/'
    rw [← hjoin (pathText "" way).toList, hsplit h, heq, ← hsplit h', hjoin]

/-! ### Visits -/

/-- Elements whose names are printed as they are. -/
def ArePrinted (es : List Node) : Prop :=
  ∀ e ∈ es, ∀ q, e.name? = some q → q.printed = q.localPart

theorem ArePrinted.of_name {n : Node} (h : ArePrinted n.elements) {name : QName}
    (hname : n.name? = some name) :
  name.printed = name.localPart
  := by
  cases n with
  | element q attributes children => exact h _ List.mem_cons_self name hname
  | _ => cases hname

namespace Visit

/-- A step of a path shows the turn to a name that is printed as it is. -/
theorem pathStep_eq {name : QName} (h : name.printed = name.localPart) (parent : String)
    (place total : Nat) :
  pathStep parent name place total = parent ++ "/" ++ Turn.text ⟨name.key, place, total⟩
  := by
  simp [pathStep, Turn.text, QName.key, h, String.append_assoc]

mutual

/-- The paths of a visit are those of the ways, in the same order. -/
theorem map_path_ofNode (path : String) (depth : Nat) {n : Node} (h : ArePrinted n.elements) :
  (ofNode path depth n).map Visit.path = n.ways.map (pathText path)
  := by
  cases n with
  | element name attributes children =>
      have hchildren : ArePrinted (Node.elementsList children) :=
        (List.forall_mem_cons.mp h).2
      rw [ofNode, Node.ways, List.map_cons, List.map_cons, map_path_ofList _ _ _ _ hchildren]
      rfl
  | _ => rfl

theorem map_path_ofList (parent : String) (depth : Nat) (siblings before : List Node)
    {ns : List Node} (h : ArePrinted (Node.elementsList ns)) :
  (ofList parent depth siblings before ns).map Visit.path
    = (Node.waysAmong siblings before ns).map (pathText parent)
  := by
  cases ns with
  | nil => rfl
  | cons n ns =>
      obtain ⟨hn, hothers⟩ := List.forall_mem_append.mp h
      rw [ofList, Node.waysAmong, List.map_append, List.map_append,
        map_path_ofList _ _ _ _ hothers]
      congr 1
      cases hname : n.name? with
      | none => rfl
      | some name =>
          dsimp only
          rw [map_path_ofNode _ _ hn, List.map_map, pathStep_eq (ArePrinted.of_name hn hname)]
          rfl

end

/-- The paths of a visit from the top, where no two elements have the same name. -/
theorem map_path_ofTop (before : List Node) {ns : List Node}
    (h : ArePrinted (Node.elementsList ns))
    (hone : ∀ name, countName name (before ++ ns) ≤ 1) :
  (ofTop ns).map Visit.path = (Node.waysAmong (before ++ ns) before ns).map (pathText "")
  := by
  induction ns generalizing before with
  | nil => rfl
  | cons n ns ih =>
      obtain ⟨hprinted, hothers⟩ := List.forall_mem_append.mp h
      have hsame : before ++ n :: ns = before ++ [n] ++ ns := by simp
      rw [ofTop, Node.waysAmong, List.map_append, List.map_append, ih (before ++ [n]) hothers
        (hsame ▸ hone), hsame]
      congr 1
      cases hn : n.name? with
      | none => rfl
      | some name =>
          have hcount := hone name
          rw [hsame] at hcount
          simp only [Node.countName_append, Node.countName_cons hn rfl] at hcount
          have hbefore : countName name before = 0 := by omega
          have hall : countName name (before ++ [n] ++ ns) = 1 := by
            simp only [Node.countName_append, Node.countName_cons hn rfl]
            omega
          dsimp only
          rw [map_path_ofNode _ _ hprinted, List.map_map, Node.turnTo, hbefore, hall,
            pathStep_eq (ArePrinted.of_name hprinted hn)]
          rfl

end Visit

/-! ### Documents -/

namespace Node

mutual

theorem elements_eq_filter (n : Node) :
  n.elements = n.nodes.filter isElement
  := by
  cases n with
  | element name attributes children =>
      rw [elements, nodes, List.filter_cons_of_pos rfl, elementsList_eq_filter]
  | _ => rfl

/-- The elements of trees are those of their nodes that are elements. -/
theorem elementsList_eq_filter (ns : List Node) :
  elementsList ns = (nodesList ns).filter isElement
  := by
  cases ns with
  | nil => rfl
  | cons n ns =>
      rw [elementsList, nodesList, List.filter_append, elements_eq_filter n,
        elementsList_eq_filter ns]

end

theorem mem_elementsList_iff {e : Node} {ns : List Node} :
  e ∈ elementsList ns ↔ e ∈ nodesList ns ∧ e.isElement
  := by
  rw [elementsList_eq_filter, List.mem_filter]

end Node

namespace Document

/-- The ways to the elements of a document, in document order. -/
def ways (d : Document) : List (List Turn) :=
  Node.waysAmong d.children [] d.children

/-- The node to which a way leads from the top of a document. -/
def follow (d : Document) : List Turn → Option Node :=
  Node.followAmong d.children

/-- What the paths of a document tell of its elements. -/
structure PathsTell (d : Document) : Prop where
  /-- A visit meets all elements, in document order. -/
  visited : d.visits.map Visit.node = d.elements
  /-- The ways lead to them, in the same order. -/
  reached : d.ways.map d.follow = d.elements.map some
  /-- The paths are those of the ways. -/
  paths : d.visits.map Visit.path = d.ways.map (pathText "")
  /-- There is one element with a path and with the namespaces on its way. -/
  identify (i j : Nat) (way way' : List Turn) : d.ways[i]? = some way → d.ways[j]? = some way' →
    pathText "" way = pathText "" way' →
    way.map (fun t => t.name.space) = way'.map (fun t => t.name.space) → i = j
  /-- All paths are different just if no element has twins among its children. -/
  distinct : (d.visits.map Visit.path).Nodup ↔ ∀ e ∈ d.elements, ¬ Node.HasTwins e.children

variable {d : Document}

theorem IsOrdered.countName_le (h : d.IsOrdered) (name : QName) :
  Visit.countName name d.children ≤ 1
  := by
  refine le_trans (List.countP_mono_left ?_) (List.countP_eq_length_filter ▸ h.root)
  intro n _ hn
  obtain ⟨q, hq, -⟩ := (Option.any_eq_true _ _).mp hn
  exact Node.isElement_of_name hq

/-- At the top there are no twins. -/
theorem IsOrdered.not_hasTwins (h : d.IsOrdered) :
  ¬ Node.HasTwins d.children
  := by
  rintro ⟨p, hp, q, hq, hne, -, -⟩
  obtain ⟨m, hm, hmname⟩ := Node.mem_names.mp hp
  obtain ⟨n, hn, hnname⟩ := Node.mem_names.mp hq
  have hm : m ∈ d.children.filter Node.isElement :=
    List.mem_filter.mpr ⟨hm, Node.isElement_of_name hmname⟩
  have hn : n ∈ d.children.filter Node.isElement :=
    List.mem_filter.mpr ⟨hn, Node.isElement_of_name hnname⟩
  obtain ⟨i, hi, rfl⟩ := List.mem_iff_getElem.mp hm
  obtain ⟨j, hj, rfl⟩ := List.mem_iff_getElem.mp hn
  have hroot := h.root
  obtain rfl : i = j := by omega
  exact hne (congrArg QName.space (Option.some.inj (hmname.symm.trans hnname)))

theorem pathsTell (hordered : d.IsOrdered)
    (hplain : ∀ e ∈ d.elements, ∀ q, e.name? = some q → q.IsPlain)
    (hprinted : ArePrinted d.elements) :
  d.PathsTell
  := by
  have hturns {way : List Turn} (hway : way ∈ d.ways) : ∀ t ∈ way, t.name.IsPlain := by
    intro t ht
    obtain ⟨e, he, q, hq, hname⟩ := Node.exists_named hway t ht
    exact hname ▸ hplain e he q hq
  have hmembers {way : List Turn} (hway : way ∈ d.ways) : ∀ t ∈ way, t.name.member = none := by
    intro t ht
    obtain ⟨-, -, q, -, hname⟩ := Node.exists_named hway t ht
    exact hname ▸ rfl
  have hsame {way way' : List Turn} (hway : way ∈ d.ways) (hway' : way' ∈ d.ways) :
      pathText "" way = pathText "" way' ↔ way.map Turn.shown = way'.map Turn.shown :=
    pathText_eq_iff (hturns hway) (hturns hway')
  have hnodup : d.ways.Nodup := Node.nodup_waysAmong _ _ _
  have hpaths : d.visits.map Visit.path = d.ways.map (pathText "") :=
    Visit.map_path_ofTop [] hprinted hordered.countName_le
  refine ⟨(Visit.map_ofTop d.children).2, Node.map_followAmong [] rfl, hpaths, ?_, ?_⟩
  · intro i j way way' hi hj hpath hspaces
    have hway := List.mem_of_getElem? hi
    have hway' := List.mem_of_getElem? hj
    have hshown := (hsame hway hway').mp hpath
    have hway_eq : way = way' :=
      Node.way_of_shown hway hway' hshown
        (.inl (Turn.names_eq (hmembers hway) (hmembers hway') hshown hspaces))
    obtain ⟨hlt, -⟩ := List.getElem?_eq_some_iff.mp hi
    exact (List.getElem?_inj hlt hnodup).mp (hi.trans (hway_eq ▸ hj.symm))
  · rw [hpaths, List.nodup_map_iff_inj_on hnodup]
    constructor
    · intro hinj e he htwins
      obtain ⟨way, hway⟩ := Node.exists_wayAmong d.children [] he
      obtain ⟨v, hv, v', hv', hne, hshown⟩ := Node.ways_to_twins htwins
      have hinside {v : List Turn} (hv : v ∈ Node.waysAmong e.children [] e.children) :
          way ++ v ∈ d.ways :=
        hway v (Node.mem_ways.mpr ⟨(Node.mem_elementsList_iff.mp he).2, .inr hv⟩)
      refine hne (List.append_cancel_left (hinj _ (hinside hv) _ (hinside hv') ?_))
      rw [hsame (hinside hv) (hinside hv'), List.map_append, List.map_append, hshown]
    · intro hnone way hway way' hway' hpath
      exact Node.way_of_shown hway hway' ((hsame hway hway').mp hpath)
        (.inr ⟨hordered.not_hasTwins, hnone⟩)

/-- Whether the names of the elements of a document are printed as they are: none of them is a
member of an enumeration that is printed otherwise. -/
def printsNames (d : Document) : Bool :=
  d.elements.all fun e => e.name?.all fun q => q.printed = q.localPart

theorem arePrinted (h : d.printsNames) :
  ArePrinted d.elements
  := by
  intro e he q hq
  have hname := List.all_eq_true.mp h e he
  rw [hq] at hname
  exact of_decide_eq_true hname

/-- The names of the elements of a document hold no mark that divides paths. -/
def HasPlainNames (d : Document) : Prop :=
  ∀ e ∈ d.elements, ∀ q, e.name? = some q → q.IsPlain

theorem isPlain_of_inner {q : QName} {isInner : Char → Bool} (hslash : isInner '/' = false)
    (hbracket : isInner '[' = false) (h : ∀ c ∈ q.localPart.toList, isInner c) :
  q.IsPlain
  := ⟨fun hmem => by simp [h _ hmem] at hslash, fun hmem => by simp [h _ hmem] at hbracket⟩

/-- Names that were checked are plain. -/
theorem isPlain_of_named {e : Node} (h : e.isNamed) {q : QName} (hq : e.name? = some q) :
  q.IsPlain
  := by
  cases e with
  | element name attributes children =>
      cases hq
      exact isPlain_of_inner (by decide) (by decide)
        fun c hc => Name.isInner_of_mem (Bool.and_eq_true_iff.mp h).1 hc
  | _ => cases hq

/-- Names that were read are plain. -/
theorem hasPlainNames_of_read {source : Source} {d : Document}
    (h : readDocument source = .ok d) :
  d.HasPlainNames
  := by
  obtain ⟨m, declarations, front, others, haccepted, -⟩ := readDocument_ok h
  intro e he q hq
  obtain ⟨n, hn, he⟩ := Node.mem_elementsList.mp he
  have hn : n ∈ others := by
    rw [haccepted.children, List.mem_append] at hn
    refine hn.resolve_left fun hfront => ?_
    have hnone := haccepted.front.isElement_eq_false n hfront
    cases n with
    | element => cases hnone
    | _ => cases he
  rw [Node.elements_eq_filter, List.mem_filter] at he
  obtain ⟨scope, hwritable⟩ := haccepted.others.writable.nodes e
    (Node.mem_nodesList.mpr ⟨n, hn, he.1⟩)
  have hdivides := haccepted.usual.divides
  cases e with
  | element name attributes children =>
      cases hq
      refine isPlain_of_inner ?_ ?_ hwritable.1.plain.inner
      · rw [Reading.Alphabet.isInner_ascii hdivides (by decide)]
        decide
      · rw [Reading.Alphabet.isInner_ascii hdivides (by decide)]
        decide
  | _ => cases hq

end Document

/-- Steps with checked names keep the names of elements plain. -/
theorem Node.AreBuilt.hasPlainNames {start d : Document}
    (h : Node.AreBuilt true start.children d.children) (hstart : start.HasPlainNames) :
  d.HasPlainNames
  := by
  obtain ⟨others, hchildren, hadded⟩ := h.added
  intro e he q hq
  obtain ⟨n, hn, hne⟩ := Node.mem_elementsList.mp he
  rw [hchildren, List.mem_append] at hn
  rcases hn with hn | hn
  · exact hstart e (Node.mem_elementsList.mpr ⟨n, hn, hne⟩) q hq
  · rw [Node.elements_eq_filter, List.mem_filter] at hne
    exact Document.isPlain_of_named ((hadded n hn).isNamed rfl e hne.1) hq

/-- What steps lead to is built on the document that they began with. -/
theorem Run.LeadsTo.areBuilt {settings : Settings} {records : List Log.Record} {start : Document}
    (hstart : start.IsOrdered) {r : Run}
    (hr : Run.LeadsTo ⟨Builder.ofDocument start settings records, []⟩ r) :
  Node.AreBuilt settings.checkNames.counts start.children r.builder.draft.document.children
  := by
  have hbegun : Site.Holds (fun s _ h => s.IsWithin settings start.children h)
      ⟨Builder.ofDocument start settings records, []⟩ := by
    refine ⟨Site.top settings, [], ⟨start.declaration, start.children, records, []⟩,
      Site.top_fits settings, rfl, ?_⟩
    have htop := Site.isWithin_top settings hstart
    exact ⟨rfl, htop.plain, htop.sound, htop.whole, htop.attached⟩
  obtain ⟨s, opened, h, fits, rfl, within⟩ :=
    (Site.lasts_within settings start.children).holds hbegun hr
  exact within.whole h within.sound

/-- Whatever steps with checked names do, and wherever they fail, to an empty document or to one
that was read, where names are printed as they are: elements with the same path differ in a
namespace on the ways to them, and all paths are different just if nowhere two siblings of one local
part and of different namespaces are both without siblings of their name, or both with some. -/
theorem paths_tell_elements {settings : Settings} (hchecks : settings.checkNames.counts)
    (records : List Log.Record) {start : Document}
    (hstart : start = {} ∨ ∃ source, readDocument source = .ok start) {r : Run}
    (hr : Run.LeadsTo ⟨Builder.ofDocument start settings records, []⟩ r)
    (hprinted : r.builder.draft.document.printsNames) :
  r.builder.draft.document.PathsTell
  := by
  have hbegun : start.IsOrdered ∧ start.HasPlainNames := by
    rcases hstart with rfl | ⟨source, hsource⟩
    · exact ⟨Document.isOrdered_nil none, fun e he => by cases he⟩
    · exact ⟨(Document.isRegular_of_read hsource).ordered,
        Document.hasPlainNames_of_read hsource⟩
  have hbuilt := hr.areBuilt hbegun.1
  rw [hchecks] at hbuilt
  exact Document.pathsTell (hbuilt.ordered.declare _) (hbuilt.hasPlainNames hbegun.2)
    (Document.arePrinted hprinted)

/-- Two children of one name around one in a namespace have different paths. -/
theorem paths_tell_elements_of_third :
  let child (named : List (String × Value)) : Step := .call "a" [] named
  let fragment := Value.function [] [child [], child [("xmlns", .str "u")], child []]
  let r := (Run.step ⟨Builder.ofDocument {} {} [], []⟩ none (.call "r" [fragment] [])).1
  r.builder.draft.document.PathsTell
    ∧ (r.builder.draft.document.visits.map Visit.path).Nodup
    ∧ r.builder.draft.document.visits.map Visit.path = ["/r", "/r/a[1]", "/r/a", "/r/a[2]"]
  := by
  intro child fragment r
  have hr : Run.LeadsTo ⟨Builder.ofDocument {} {} [], []⟩ r := .step none _ .refl
  have hchecks : ({} : Settings).checkNames.counts := rfl
  have htell := paths_tell_elements hchecks [] (.inl rfl) hr (by decide)
  exact ⟨htell, htell.distinct.mpr (by decide), by decide⟩

/-- Two children of one local part, one of them in a namespace, share their path, whether they are
built with checked names or read. -/
theorem paths_shared_across_spaces :
  let child (named : List (String × Value)) : Step := .call "a" [] named
  let fragment := Value.function [] [child [], child [("xmlns", .str "u")]]
  let r := (Run.step ⟨Builder.ofDocument {} {} [], []⟩ none (.call "r" [fragment] [])).1
  let d : Document := ⟨none, [.element ⟨"r", none, by decide, none⟩ []
    [.element ⟨"a", none, by decide, none⟩ [] [], .element ⟨"a", some "u", by decide, none⟩ [] []]]⟩
  ({} : Settings).checkNames.counts
    ∧ r.builder.draft.document = d
    ∧ readDocument (.text "<r><a /><a xmlns=\"u\" /></r>") = .ok d
    ∧ d.visits.map Visit.path = ["/r", "/r/a", "/r/a"]
    ∧ ¬ (d.visits.map Visit.path).Nodup
  := by
  intro child fragment r d
  have hpaths : d.visits.map Visit.path = ["/r", "/r/a", "/r/a"] := by
    decide
  have hbuilt : r.builder.draft.document = d := by
    with_unfolding_all rfl
  refine ⟨rfl, hbuilt, rfl, hpaths, ?_⟩
  rw [hpaths]
  decide

end XmlDraft
