import Mathlib.Data.List.Induction
import Mathlib.Data.List.Nodup
import ToyC.Proofs.Files.Route
import ToyC.Proofs.Text

/-!
Completing a word. The word is divided behind its last slash: the part in front names
the directory whose entries are looked at, the rest is what their names start with.
A candidate is the word carried on, so as a path it leads to one of those entries, and
every entry that some continuation of the word leads to is a candidate.
-/

namespace ToyC

namespace Files

/-! ### Dividing a word -/

/-- The front of a word, up to its last slash. -/
def IsLead (lead : List Char) : Prop :=
  lead = [] ∨ ∃ front, lead = front ++ ['/']

/-- A word is divided behind its last slash. -/
theorem splitWord_append {lead stem : List Char} (hlead : IsLead lead) (hstem : '/' ∉ stem) :
    splitWord (lead ++ stem) = (lead, stem) := by
  have hrun : ∀ c ∈ stem.reverse, decide (c ≠ '/') = true := by
    intro c hc
    have hne : c ≠ '/' := fun heq => hstem (heq ▸ List.mem_reverse.mp hc)
    exact decide_eq_true hne
  have hstop : Text.StopsRun (fun c => decide (c ≠ '/')) lead.reverse := by
    rcases hlead with rfl | ⟨front, rfl⟩
    · exact Text.StopsRun.nil _
    · rw [List.reverse_append]
      exact Text.StopsRun.cons (by decide) _
  simp only [splitWord, List.reverse_append, Text.takeWhile_run hrun hstop, List.reverse_reverse]
  simp

theorem exists_splitWord (word : List Char) :
    ∃ lead stem, IsLead lead ∧ '/' ∉ stem ∧ word = lead ++ stem := by
  induction word using List.reverseRecOn with
  | nil => exact ⟨[], [], Or.inl rfl, List.not_mem_nil, rfl⟩
  | append_singleton front c ih =>
      by_cases hc : c = '/'
      · exact ⟨front ++ [c], [], Or.inr ⟨front, by rw [hc]⟩, List.not_mem_nil, by simp⟩
      · obtain ⟨lead, stem, hlead, hstem, rfl⟩ := ih
        refine ⟨lead, stem ++ [c], hlead, ?_, by simp⟩
        simpa [hstem] using Ne.symm hc

/-- Where the front of a word is more than a slash, it names the directory without its last one. -/
theorem searchPlace_slash {front : List Char} (h : front ≠ []) (cwd : List String) :
    searchPlace cwd (front ++ ['/']) = Path.resolve cwd (String.ofList front) := by
  unfold searchPlace
  split
  · rename_i hnil
    exact absurd hnil (by simp)
  · rename_i hslash
    exact absurd (List.append_left_eq_self.mp hslash) h
  · rw [List.dropLast_concat]

/-- A path behind the front of a word leads to where it leads from the directory that the word is
completed in. -/
theorem resolve_lead {lead : List Char} (hlead : IsLead lead) {rest : String}
    (hrest : rest.toList.head? ≠ some '/') (cwd : List String) :
    Path.resolve cwd (String.ofList lead ++ rest) = Path.resolve (searchPlace cwd lead) rest := by
  rcases hlead with rfl | ⟨front, rfl⟩
  · simp [searchPlace]
  · rcases eq_or_ne front [] with rfl | hfront
    · exact Path.resolve_root_join rest cwd
    · have hpath : String.ofList front ≠ "" := by simpa using hfront
      rw [searchPlace_slash hfront, ← Path.resolve_join hpath hrest, String.ofList_append]

/-! ### Entries as candidates -/

theorem toList_shown (key : String) (node : Node) :
    (shown key node).toList = key.toList ++ if node.isDirectory then ['/'] else [] := by
  unfold shown
  split <;> simp

/-- A candidate leads to its entry, with the slash behind a directory or without. -/
theorem resolve_shown {key : String} (h : Path.Canonical key) (node : Node) (place : List String) :
    Path.resolve place (shown key node) = place ++ [key] := by
  unfold shown
  split
  · rw [Path.resolve_slash h.1, Path.resolve_canonical h]
  · exact Path.resolve_canonical h place

/-- The entries whose names start with the rest of a word, as candidates for the word. -/
def candidates (lead stem : List Char) (entries : Table Node) : List String :=
  (entries.filter fun entry => stem.isPrefixOf entry.1.toList).map fun entry =>
    String.ofList lead ++ shown entry.1 entry.2

theorem complete_append {lead stem : List Char} (hlead : IsLead lead) (hstem : '/' ∉ stem)
    (tree : Node) (cwd : List String) :
    complete tree cwd (String.ofList (lead ++ stem)) =
      ((tree.entriesAt? (searchPlace cwd lead)).map (candidates lead stem)).getD [] := by
  rw [complete, String.toList_ofList, splitWord_append hlead hstem]
  dsimp only
  cases tree.entriesAt? (searchPlace cwd lead) <;> rfl

theorem mem_candidates_iff {lead stem : List Char} {entries : Table Node} {candidate : String} :
    candidate ∈ candidates lead stem entries ↔
      ∃ key node, (key, node) ∈ entries ∧ stem <+: key.toList ∧
        String.ofList lead ++ shown key node = candidate := by
  simp [candidates, List.isPrefixOf_iff_prefix, and_assoc]

/-- What a listing shows of an entry tells its name. -/
theorem shown_injective {key other : String} (hkey : '/' ∉ key.toList) (hother : '/' ∉ other.toList)
    {node node' : Node} (h : shown key node = shown other node') : key = other := by
  have hname : ∀ {name : String} (node : Node), '/' ∉ name.toList →
      (shown name node).toList.takeWhile (fun c => decide (c ≠ '/')) = name.toList := by
    intro name node hslash
    rw [toList_shown]
    refine Text.takeWhile_run (fun c hc => decide_eq_true fun heq => hslash (heq ▸ hc)) ?_
    split
    · exact Text.StopsRun.cons (by decide) _
    · exact Text.StopsRun.nil _
  have hchars := hname node hkey
  rw [h, hname node' hother] at hchars
  exact String.toList_inj.mp hchars.symm

theorem candidates_nodup {entries : Table Node} (hdistinct : (Table.keys entries).Nodup)
    (hkeyed : ∀ entry ∈ entries, Path.Canonical entry.1) (lead stem : List Char) :
    (candidates lead stem entries).Nodup := by
  have hentries : (entries.filter fun entry => stem.isPrefixOf entry.1.toList).Nodup :=
    (List.Nodup.of_map _ hdistinct).filter _
  refine hentries.map_on fun entry hentry other hother hsame => ?_
  have hentry := (List.mem_filter.mp hentry).1
  have hother := (List.mem_filter.mp hother).1
  have hshown := String.append_right_inj _ |>.mp hsame
  have hkey := shown_injective (hkeyed entry hentry).2.1 (hkeyed other hother).2.1 hshown
  exact List.inj_on_of_nodup_map hdistinct hentry hother hkey

/-! ### Candidates and what they lead to -/

/-- What a candidate for a word promises: it carries the word on, and as a path it leads to a node,
with a slash at its end exactly if that is a directory. -/
structure Completes (tree : Node) (cwd : List String) (word candidate : String) : Prop where
  carriesOn : word.toList <+: candidate.toList
  leads : ∃ node, tree.lookup? (Path.resolve cwd candidate) = some node ∧
    (candidate.toList.getLast? = some '/' ↔ node.isDirectory = true)

variable {tree : Node} {cwd : List String} {lead stem : List Char} {entries : Table Node}

theorem resolve_candidate (hlead : IsLead lead) {key : String} (hkey : Path.Canonical key)
    (node : Node) (cwd : List String) :
    Path.resolve cwd (String.ofList lead ++ shown key node) = searchPlace cwd lead ++ [key] := by
  have hstart : (shown key node).toList.head? ≠ some '/' := by
    rw [toList_shown, List.head?_append_of_ne_nil _ hkey.toList_ne_nil]
    exact hkey.head?_ne
  rw [resolve_lead hlead hstart, resolve_shown hkey]

theorem getLast?_candidate {key : String} (hkey : Path.Canonical key) (lead : List Char)
    (node : Node) : (String.ofList lead ++ shown key node).toList.getLast? = some '/' ↔
      node.isDirectory = true := by
  rw [String.toList_append, toList_shown]
  cases node.isDirectory with
  | true => simp
  | false =>
      simp only [Bool.false_eq_true, if_false, iff_false, List.append_nil]
      rw [List.getLast?_append_of_ne_nil _ hkey.toList_ne_nil]
      exact fun hlast => hkey.2.1 (List.mem_of_getLast? hlast)

/-- An entry whose name starts with the rest of a word makes a candidate. -/
theorem completes_of_entry (htree : tree.Named) (hlead : IsLead lead)
    (hentries : tree.entriesAt? (searchPlace cwd lead) = some entries) {key : String} {node : Node}
    (hentry : (key, node) ∈ entries) (hstem : stem <+: key.toList) :
    Completes tree cwd (String.ofList (lead ++ stem)) (String.ofList lead ++ shown key node) := by
  obtain ⟨hdistinct, hkeyed⟩ := htree.entriesAt? hentries
  have hkey := (hkeyed _ hentry).1
  refine ⟨?_, node, ?_, getLast?_candidate hkey lead node⟩
  · rw [String.toList_append, String.toList_ofList, String.toList_ofList, toList_shown]
    exact (List.prefix_append_right_inj lead).mpr (hstem.trans (List.prefix_append _ _))
  · rw [resolve_candidate hlead hkey, Node.lookup?_snoc, hentries, Option.bind_some,
      Table.get?_of_mem hdistinct hentry]

/-- The last part of a path is what stands behind its last slash. -/
theorem getLast?_parts (hlead : IsLead lead) {name : String} (hname : '/' ∉ name.toList) :
    (Path.parts (String.ofList lead ++ name)).getLast? = some name := by
  rcases hlead with rfl | ⟨front, rfl⟩
  · have hparts := Path.parts_of_no_slash hname
    simp [hparts]
  · have hpath : String.ofList (front ++ ['/']) ++ name = String.ofList front ++ "/" ++ name := by
      rw [String.ofList_append]
    rw [hpath, Path.parts_join, Path.parts_of_no_slash hname]
    simp

/-- Where a word that is carried on by a name leads to a node, that is an entry of the directory
that the word is completed in. -/
theorem mem_complete (hlead : IsLead lead) (hstem : '/' ∉ stem) {rest : List Char}
    (hname : Path.Canonical (String.ofList (stem ++ rest))) {node : Node}
    (hnode : tree.lookup? (Path.resolve cwd (String.ofList lead ++ String.ofList (stem ++ rest))) =
      some node) :
    shown (String.ofList lead ++ String.ofList (stem ++ rest)) node ∈
      complete tree cwd (String.ofList (lead ++ stem)) := by
  rw [resolve_lead hlead hname.head?_ne, Path.resolve_canonical hname, Node.lookup?_snoc] at hnode
  obtain ⟨entries, hentries, hentry⟩ := Option.bind_eq_some_iff.mp hnode
  rw [complete_append hlead hstem, hentries]
  refine mem_candidates_iff.mpr
    ⟨_, node, Table.mem_of_get?_eq_some hentry, ?_, ?_⟩
  · rw [String.toList_ofList]
    exact List.prefix_append stem rest
  · unfold shown
    split <;> simp [String.append_assoc]

/-- A path to a directory that ends in a slash is completed to everything that is listed there. -/
theorem complete_listed {path : String} (hpath : path ≠ "") {node : Node}
    (hnode : tree.lookup? (Path.resolve cwd path) = some node)
    (hdirectory : node.isDirectory = true) :
    ∃ listing, ls tree cwd (some path) = .ok listing ∧
      complete tree cwd (path ++ "/") = listing.map (path ++ "/" ++ ·) := by
  cases node with
  | file => cases hdirectory
  | directory name entries attributes =>
      refine ⟨entries.map fun entry => shown entry.1 entry.2, ?_, ?_⟩
      · simp only [ls, given?_some hpath, Option.map_some, Option.getD_some, hnode]
      · have hfront : path.toList ≠ [] := by simpa using hpath
        have hword : path ++ "/" = String.ofList (path.toList ++ ['/'] ++ []) := by
          simp
        have hlead : IsLead (path.toList ++ ['/']) := Or.inr ⟨_, rfl⟩
        rw [hword, complete_append hlead List.not_mem_nil, searchPlace_slash hfront,
          String.ofList_toList, Node.entriesAt?_of_lookup? hnode]
        simp [candidates, Function.comp_def]

/-- Completion of a word: the candidates are distinct, and each keeps what it promises; every name
that carries the word on to a node is among them; and for a directory with a slash behind it they
are its listing. -/
theorem complete_exact (htree : tree.WellFormed) (cwd : List String) (word : String) :
    ((complete tree cwd word).Nodup ∧
        ∀ candidate ∈ complete tree cwd word, Completes tree cwd word candidate) ∧
      (∀ (rest : String) (node : Node), '/' ∉ rest.toList →
        (∀ name ∈ (Path.parts (word ++ rest)).getLast?, Path.Canonical name) →
        tree.lookup? (Path.resolve cwd (word ++ rest)) = some node →
          shown (word ++ rest) node ∈ complete tree cwd word) ∧
      ∀ (path : String) (node : Node), path ≠ "" →
        tree.lookup? (Path.resolve cwd path) = some node → node.isDirectory = true →
        ∃ listing, ls tree cwd (some path) = .ok listing ∧
          complete tree cwd (path ++ "/") = listing.map (path ++ "/" ++ ·) := by
  obtain ⟨lead, stem, hlead, hstem, hchars⟩ := exists_splitWord word.toList
  obtain rfl : word = String.ofList (lead ++ stem) := by
    rw [← hchars, String.ofList_toList]
  refine ⟨?_, ?_, fun path node hpath hnode hdirectory => complete_listed hpath hnode hdirectory⟩
  · rw [complete_append hlead hstem]
    cases hentries : tree.entriesAt? (searchPlace cwd lead) with
    | none => simp
    | some entries =>
        obtain ⟨hdistinct, hkeyed⟩ := htree.named.entriesAt? hentries
        refine ⟨candidates_nodup hdistinct (fun entry hentry => (hkeyed entry hentry).1) lead stem,
          fun candidate hcandidate => ?_⟩
        obtain ⟨key, node, hentry, hstart, rfl⟩ := mem_candidates_iff.mp hcandidate
        exact completes_of_entry htree.named hlead hentries hentry hstart
  · intro rest node hrest hlast hnode
    have hpath : String.ofList (lead ++ stem) ++ rest =
        String.ofList lead ++ String.ofList (stem ++ rest.toList) := by
      simp [String.append_assoc]
    have hslash : '/' ∉ (String.ofList (stem ++ rest.toList)).toList := by
      simp [hstem, hrest]
    rw [hpath] at hlast hnode ⊢
    rw [getLast?_parts hlead hslash] at hlast
    exact mem_complete hlead hstem (hlast _ rfl) hnode

/-- From a directory that is gone, a word that goes home is completed to a directory there, with its
front as it was typed. The way back to the root lists what is there. -/
theorem complete_exact_home :
    let word := "var/~//./pro"
    Completes defaultTree ["gone"] word "var/~//./projects/" ∧
      shown (word ++ "jects") (.directory "projects" [] none) ∈
        complete defaultTree ["gone"] word ∧
      ∃ listing, ls defaultTree ["gone"] (some "/etc/..") = .ok listing ∧
        complete defaultTree ["gone"] "/etc/../" = listing.map ("/etc/.." ++ "/" ++ ·) := by
  intro word
  have hmem : "var/~//./projects/" ∈ complete defaultTree ["gone"] word := by decide +kernel
  have hlast : (Path.parts (word ++ "jects")).getLast? = some "projects" := by decide +kernel
  have hplace : Path.resolve ["gone"] (word ++ "jects") = ["home", "guest", "projects"] := by
    decide +kernel
  obtain ⟨⟨-, hcandidates⟩, hnames, hlistings⟩ :=
    complete_exact defaultTree_wellFormed ["gone"] word
  refine ⟨hcandidates _ hmem, hnames "jects" _ (by decide) ?_ ?_,
    hlistings "/etc/.." defaultTree (by decide) rfl rfl⟩
  · rw [hlast]
    rintro name ⟨⟩
    decide
  · rw [hplace]
    rfl

end Files

end ToyC
