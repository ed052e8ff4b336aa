/-
# Includes and the files they lead to

The USR of a file is its path behind `file://`, and the exporter makes it in two places: from the
path that is exported (`_file_usr`), and at an inclusion directive from the name that libclang
reports for the included file.  The `INCLUDES` edges of an export are those of its directives, one
each and in their order (`includes_extract`), so an edge leads to the node of the file it means
exactly if the name is the file's resolved path, letter by letter (`links_includes_iff`).
-/

import CppMcp.Export.Growth
import CppMcp.Export.Locality
import CppMcp.Files.Lookup
import Mathlib.Data.List.Forall2

namespace CppMcp
namespace Ingest

open Py (Path)
open Files (Host)
open Export (Acc Cursor CursorInfo NodeRecord EdgeRecord extractNodesAndEdges fileUsr fileNode)

/-- The name of the included file, of an inclusion directive for which there is one. -/
def includedName (c : CursorInfo) : Option String :=
  if c.kindName = some .inclusionDirective then
    match c.get_included_file with
    | .ok (some (.ok name)) => some name
    | _ => none
  else none

/-- The names at the inclusion directives that the walk reaches, in its order. -/
def includedNames (t : Cursor) : List String :=
  (Export.reached t).filterMap fun s => includedName s.label

/-- The `INCLUDES` edges of an export. -/
def includesEdges (edges : List EdgeRecord) : List EdgeRecord :=
  edges.filter fun e => e.edge_type = .includes

/-- Each directive for the file `b` has an edge to the node. -/
def LinksIncludes (h : Host) (b : Path) (names : List String) (edges : List EdgeRecord)
    (node : NodeRecord) : Prop :=
  List.Forall₂ (fun name e => h.lookup name = some b → e.target_usr = node.usr) names
    (includesEdges edges)

section Extract

variable {sha1 : Py.Sha1} {file_path : String}

/-- A visit has an `INCLUDES` edge if it is one of a directive with a name. -/
theorem includesEdges_linkEdges (v : Export.Visit) :
    includesEdges (Export.linkEdges file_path v) =
      (includedName v.2.label).toList.map fun name =>
        ⟨fileUsr file_path, fileUsr name, .includes, []⟩ := by
  have hparent : (Export.parentEdge file_path v.1 v.2.label).edge_type ≠ .includes := by
    rcases Export.parentEdge_cases file_path v.1 v.2.label with ⟨p, -, h⟩ | ⟨k, rfl | rfl, h⟩ <;>
      simp [h]
  have hinh : includesEdges (Export.inheritsEdges v.2.label v.2.children) = [] := by
    unfold includesEdges Export.inheritsEdges
    split_ifs <;> simp
  unfold Export.linkEdges includedName
  dsimp only
  by_cases hincl : v.2.label.kindName = some .inclusionDirective
  · rw [if_neg (by rw [hincl]; decide), if_pos hincl, if_pos hincl]
    unfold Export.inclusionEdges
    rcases v.2.label.get_included_file with e | (_ | (e | name)) <;> rfl
  · rw [if_neg hincl, if_neg hincl]
    split_ifs
    · rfl
    · simp [includesEdges, Export.useEdges]
    · rfl
    · rfl
    · rw [includesEdges, List.filter_cons_of_neg (by simpa using hparent)]
      exact hinh

/-- **The `INCLUDES` edges of an export are those of its inclusion directives.** -/
theorem includes_extract {t : Cursor} {r : List NodeRecord × List EdgeRecord}
    (h : extractNodesAndEdges sha1 file_path t = .ok r) :
    includesEdges r.2 = (includedNames t).map fun name =>
      ⟨fileUsr file_path, fileUsr name, .includes, []⟩ := by
  obtain ⟨-, rfl⟩ := (Export.extract_eq_ok_iff sha1 file_path).mp h
  have hlinks : includesEdges (Export.collected sha1 file_path t).edges =
      includesEdges (Export.collected sha1 file_path t).links := by
    rw [includesEdges, includesEdges, Export.Batch.links, List.filter_filter]
    refine List.filter_congr fun e _ => ?_
    cases e.edge_type <;> rfl
  have hvisits : ∀ vs : List Export.Visit,
      includesEdges (vs.flatMap (Export.linkEdges file_path)) =
        ((vs.map Prod.snd).filterMap fun s => includedName s.label).map fun name =>
          ⟨fileUsr file_path, fileUsr name, .includes, []⟩ := by
    intro vs
    induction vs with
    | nil => rfl
    | cons v vs ih =>
      rw [List.flatMap_cons, includesEdges, List.filter_append]
      change includesEdges _ ++ includesEdges _ = _
      rw [includesEdges_linkEdges, ih, List.map_cons, List.filterMap_cons]
      cases includedName v.2.label <;> rfl
  rw [hlinks, Export.link_edges_collected, hvisits, includedNames, Export.visits,
    Export.visit_map_snd]

/-- The first node of an export is that of its file. -/
theorem head?_extract {t : Cursor} {r : List NodeRecord × List EdgeRecord}
    (h : extractNodesAndEdges sha1 file_path t = .ok r) : r.1.head? = some (fileNode file_path) := by
  obtain ⟨-, rfl⟩ := (Export.extract_eq_ok_iff sha1 file_path).mp h
  obtain ⟨rest, hrest⟩ := ((Export.covers_le sha1).foldl_emit file_path (Export.visits file_path t)
    (Export.initialBatch file_path)).nodes
  rw [Export.collected, ← hrest]
  rfl

end Extract

/-- The USR of a file is its path with something before it, so different paths have different USRs.
-/
theorem fileUsr_injective : Function.Injective fileUsr := fun _ _ h =>
  (String.append_right_inj _).mp h

section Link

variable (h : Host) {sha1 : Py.Sha1} {a b : Path} {t t' : Cursor}
  {r r' : List NodeRecord × List EdgeRecord}

/-- The edges are linked exactly if every name under which the directives report the file is its
resolved path. -/
theorem linksIncludes_iff (hr : extractNodesAndEdges sha1 a.str t = .ok r) :
    LinksIncludes h b (includedNames t) r.2 (fileNode b.str) ↔
      ∀ name ∈ includedNames t, h.lookup name = some b → name = b.str := by
  rw [LinksIncludes, includes_extract hr, List.forall₂_map_right_iff, List.forall₂_same]
  refine forall₂_congr fun name _ => ?_
  exact imp_congr_right fun _ => fileUsr_injective.eq_iff

/-- **Which includes are linked to the file they lead to:** those that are reported under its
resolved path. The edge of a directive ends at `file://` with the name that libclang reports, and
the node of the file has the path that `realpath` gives. -/
theorem links_includes_iff (hr : extractNodesAndEdges sha1 a.str t = .ok r)
    (hr' : extractNodesAndEdges sha1 b.str t' = .ok r') :
    (∃ node, r'.1.head? = some node ∧ LinksIncludes h b (includedNames t) r.2 node) ↔
      ∀ name ∈ includedNames t, h.lookup name = some b → name = b.str := by
  rw [← linksIncludes_iff h hr, head?_extract hr']
  simp

end Link

/-- `/proj/a.cpp`, and a header in a directory beside it. -/
def headerHost : Host where
  fs :=
    { entries := [(["proj"], .dir), (["proj", "a.cpp"], .file), (["proj", "inc"], .dir),
        (["proj", "inc", "b.h"], .file)]
      nodup := by decide
      plain := by decide
      below := by decide }
  cwd := []
  cwd_dir := rfl

/-- A translation unit with one inclusion directive for each name. -/
def includingTree (names : List String) : Cursor :=
  .node { kind := .ok (.other 350) } (names.map fun name => .node
    { kind := .ok .inclusionDirective, get_included_file := .ok (some (.ok name)) } [])

/-- In the tree of the example no cursor raises on `get_children()`, so its export returns a result.
-/
theorem includingTree_children (names : List String) :
    ∀ s ∈ (includingTree names).subtrees, s.label.children_raise = none := by
  simp only [includingTree, Rose.subtrees_node, List.forall_mem_cons, List.mem_flatMap,
    List.mem_map]
  refine ⟨rfl, ?_⟩
  rintro s ⟨_, ⟨name, -, rfl⟩, hs⟩
  rw [Rose.subtrees_node, List.flatMap_nil, List.mem_singleton] at hs
  rw [hs]
  rfl

/-- `links_includes_iff` at a header that is reported under its resolved path. -/
theorem links_includes_iff_header : ∃ r r',
    extractNodesAndEdges default "/proj/a.cpp" (includingTree ["/proj/inc/b.h"]) = .ok r ∧
    extractNodesAndEdges default "/proj/inc/b.h" (includingTree []) = .ok r' ∧
    ((∃ node, r'.1.head? = some node ∧ LinksIncludes headerHost ["proj", "inc", "b.h"]
        (includedNames (includingTree ["/proj/inc/b.h"])) r.2 node) ↔
      ∀ name ∈ includedNames (includingTree ["/proj/inc/b.h"]),
        headerHost.lookup name = some ["proj", "inc", "b.h"] → name = "/proj/inc/b.h") := by
  obtain ⟨r, hr⟩ := Export.exists_extract_of_children default "/proj/a.cpp"
    (includingTree_children ["/proj/inc/b.h"])
  obtain ⟨r', hr'⟩ := Export.exists_extract_of_children default "/proj/inc/b.h"
    (includingTree_children [])
  exact ⟨r, r', hr, hr', links_includes_iff headerHost (a := ["proj", "a.cpp"])
    (b := ["proj", "inc", "b.h"]) hr hr'⟩

/-- **An include through a directory above is not linked:** the directive reports
`/proj/inc/../inc/b.h`, and the edge ends there, where no file has its node. -/
theorem dotdot_include_not_linked : ∃ r r',
    extractNodesAndEdges default "/proj/a.cpp" (includingTree ["/proj/inc/../inc/b.h"]) = .ok r ∧
    extractNodesAndEdges default "/proj/inc/b.h" (includingTree []) = .ok r' ∧
    headerHost.lookup "/proj/inc/../inc/b.h" = some ["proj", "inc", "b.h"] ∧
    includesEdges r.2 =
      [⟨"file:///proj/a.cpp", "file:///proj/inc/../inc/b.h", .includes, []⟩] ∧
    r'.1.head?.map NodeRecord.usr = some "file:///proj/inc/b.h" ∧
    ¬∃ node, r'.1.head? = some node ∧ LinksIncludes headerHost ["proj", "inc", "b.h"]
      (includedNames (includingTree ["/proj/inc/../inc/b.h"])) r.2 node := by
  obtain ⟨r, hr⟩ := Export.exists_extract_of_children default "/proj/a.cpp"
    (includingTree_children ["/proj/inc/../inc/b.h"])
  obtain ⟨r', hr'⟩ := Export.exists_extract_of_children default "/proj/inc/b.h"
    (includingTree_children [])
  have hnames : includedNames (includingTree ["/proj/inc/../inc/b.h"]) =
      ["/proj/inc/../inc/b.h"] := by decide
  have hlookup : headerHost.lookup "/proj/inc/../inc/b.h" = some ["proj", "inc", "b.h"] := by
    decide +kernel
  refine ⟨r, r', hr, hr', hlookup, ?_, ?_, ?_⟩
  · rw [includes_extract hr, hnames]
    decide
  · rw [head?_extract hr']
    decide
  · rintro ⟨node, hnode, hlinks⟩
    cases (head?_extract hr').symm.trans hnode
    have hsame := (linksIncludes_iff headerHost (a := ["proj", "a.cpp"])
      (b := ["proj", "inc", "b.h"]) hr).mp hlinks "/proj/inc/../inc/b.h"
        (hnames ▸ List.mem_singleton_self _) hlookup
    exact absurd hsame (by decide)

end Ingest
end CppMcp
