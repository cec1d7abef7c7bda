import GrammarLayout.Proofs.Style.Merge
import GrammarLayout.Toml.Builder

/-!
# Tables with sections

A document may open one outer table, then the tables of its sections one after
the other, and give each section its keys.  As no name is used twice, every
statement only adds to what is there, and the document describes the sections
as they were written.

What is proved here:

* `Builder.run?_section`, `Builder.run?_assign` — what one statement adds;
* `Builder.runAll?_sections` — what the whole document describes.
-/

namespace GrammarLayout

open Text

namespace Table

theorem set_of_notMem {t : Table} {name : Text} (h : name ∉ t.map Prod.fst) (v : Setting) :
    t.set name v = t ++ [(name, v)] := by
  induction t with
  | nil => rfl
  | cons e t ih =>
    obtain ⟨k, old⟩ := e
    rw [List.map_cons, List.mem_cons, not_or] at h
    rw [set, if_neg (Ne.symm h.1), ih h.2]
    rfl

theorem set_concat {t : Table} {name : Text} (h : name ∉ t.map Prod.fst) (old v : Setting) :
    Table.set name v (t ++ [(name, old)]) = t ++ [(name, v)] := by
  induction t with
  | nil => simp [set]
  | cons e t ih =>
    obtain ⟨k, first⟩ := e
    rw [List.map_cons, List.mem_cons, not_or] at h
    rw [List.cons_append, set, if_neg (Ne.symm h.1), ih h.2]
    rfl

theorem get?_concat {t : Table} {name : Text} (h : name ∉ t.map Prod.fst) (v : Setting) :
    Table.get? (t ++ [(name, v)]) name = some v := by
  rw [← set_of_notMem h, get?_set, if_pos rfl]

end Table

namespace Toml

/-- The statements that open a section of an outer table and give it its keys. -/
def sectionStatements (outer : Text) (s : Text × Table) : List Statement :=
  .table [outer, s.1] :: s.2.map fun e => .assign [e.1] (.plain e.2)

namespace Builder

/-- A document with one outer table, without implied tables and arrays. -/
def holding (outer : Text) (sections : Table) : Builder := { root := [(outer, .table sections)] }

variable {outer name : Text} {done t : Table}

theorem run?_outer (context : Key) :
    ({} : Builder).run? context (.table [outer]) = some (holding outer [], [outer]) := by
  rfl

theorem noteArray_holding (context : Key) :
    (holding outer done).noteArray context name false = holding outer done := rfl

theorem reach?_outer : Table.reach? [outer] (holding outer done).root = some done := by
  simp [holding, Table.reach?, Table.get?_cons]

theorem store?_outer (v : Setting) :
    (holding outer done).store? [outer] name v = some (holding outer (done.set name v)) := by
  simp [holding, store?, Table.change?, Table.get?_cons, Table.set]

theorem reach?_section (hname : name ∉ done.map Prod.fst) :
    Table.reach? [outer, name] (holding outer (done ++ [(name, .table t)])).root = some t := by
  simp [holding, Table.reach?, Table.get?_cons, Table.get?_concat hname]

theorem store?_section (hname : name ∉ done.map Prod.fst) {key : Text} (v : Setting) :
    (holding outer (done ++ [(name, .table t)])).store? [outer, name] key v
      = some (holding outer (done ++ [(name, .table (t.set key v))])) := by
  simp [holding, store?, Table.change?, Table.get?_cons, Table.get?_concat hname, Table.set,
    Table.set_concat hname]

/-- A new name is given its value. -/
theorem give?_new {b : Builder} {context : Key} (hreach : b.root.reach? context = some t)
    (hname : name ∉ t.map Prod.fst) (v : Setting) :
    b.give? context name v = b.store? context name v := by
  have hnew : (Table.get? t name).isNone = true := by
    rw [Table.get?_eq_none_iff.2 hname]
    rfl
  rw [give?, hreach]
  exact if_pos hnew

/-- A statement that opens a new section. -/
theorem run?_section (hname : name ∉ done.map Prod.fst) (context : Key) :
    (holding outer done).run? context (.table [outer, name])
      = some (holding outer (done ++ [(name, .table [])]), [outer, name]) := by
  have hpass : (holding outer done).passThrough? [] [outer] = some (holding outer done) := by
    simp [holding, passThrough?, Table.reach?, Table.get?_cons]
  have hgive : (holding outer done).give? [outer] name (.table [])
      = some (holding outer (done ++ [(name, .table [])])) := by
    rw [give?_new reach?_outer hname, store?_outer, Table.set_of_notMem hname]
  simp [run?, openTable?, hpass, hgive, noteArray_holding]

/-- A statement that gives a new key of the section opened last a value. -/
theorem run?_assign (hname : name ∉ done.map Prod.fst) {key : Text} (hkey : key ∉ t.map Prod.fst)
    (v : Setting) :
    (holding outer (done ++ [(name, .table t)])).run? [outer, name] (.assign [key] (.plain v))
      = some (holding outer (done ++ [(name, .table (t ++ [(key, v)]))]), [outer, name]) := by
  have hgive : (holding outer (done ++ [(name, .table t)])).give? [outer, name] key v
      = some (holding outer (done ++ [(name, .table (t ++ [(key, v)]))])) := by
    rw [give?_new (reach?_section hname) hkey, store?_section hname, Table.set_of_notMem hkey]
  simp [run?, pair?, enter?, value?, hgive, isArray, noteArray_holding]

/-- The keys of a section are added one after the other. -/
theorem runAll?_assign (hname : name ∉ done.map Prod.fst) {entries : Table}
    (hkeys : ((t ++ entries).map Prod.fst).Nodup) (rest : List Statement) :
    (holding outer (done ++ [(name, .table t)])).runAll? [outer, name]
        (entries.map (fun e => .assign [e.1] (.plain e.2)) ++ rest)
      = (holding outer (done ++ [(name, .table (t ++ entries))])).runAll? [outer, name] rest := by
  induction entries generalizing t with
  | nil => simp
  | cons e entries ih =>
    obtain ⟨key, v⟩ := e
    have hkey : key ∉ t.map Prod.fst := by
      rw [List.map_append, List.nodup_append] at hkeys
      intro hmem
      exact hkeys.2.2 _ hmem _ List.mem_cons_self rfl
    have hrest : ((t ++ [(key, v)] ++ entries).map Prod.fst).Nodup := by
      rwa [List.append_assoc]
    rw [List.map_cons, List.cons_append, runAll?, run?_assign hname hkey]
    show runAll? _ _ _ = _
    rw [ih hrest, List.append_assoc, List.singleton_append]

/-- The sections of a document are added one after the other. -/
theorem runAll?_sectionStatements {sections : List (Text × Table)}
    (hnames : (done.map Prod.fst ++ sections.map Prod.fst).Nodup)
    (hkeys : ∀ s ∈ sections, (s.2.map Prod.fst).Nodup) (context : Key) :
    (holding outer done).runAll? context (sections.flatMap (sectionStatements outer))
      = some (holding outer (done ++ sections.map fun s => (s.1, .table s.2))) := by
  induction sections generalizing done context with
  | nil => simp [runAll?]
  | cons s sections ih =>
    obtain ⟨name, entries⟩ := s
    have hname : name ∉ done.map Prod.fst := by
      rw [List.nodup_append] at hnames
      intro hmem
      exact hnames.2.2 _ hmem _ List.mem_cons_self rfl
    have hentries : (([] ++ entries).map Prod.fst).Nodup := hkeys _ List.mem_cons_self
    have hrest : (((done ++ [(name, Setting.table entries)]).map Prod.fst)
        ++ sections.map Prod.fst).Nodup := by
      simpa using hnames
    rw [List.flatMap_cons, sectionStatements, List.cons_append, runAll?, run?_section hname]
    show runAll? _ _ _ = _
    rw [runAll?_assign hname hentries, List.nil_append,
      ih hrest (fun q hq => hkeys q (List.mem_cons_of_mem _ hq))]
    simp

/-- A document of sections describes them as they were written. -/
theorem runAll?_sections {sections : List (Text × Table)} (hnames : (sections.map Prod.fst).Nodup)
    (hkeys : ∀ s ∈ sections, (s.2.map Prod.fst).Nodup) :
    ({} : Builder).runAll? [] (.table [outer] :: sections.flatMap (sectionStatements outer))
      = some (holding outer (sections.map fun s => (s.1, .table s.2))) := by
  rw [runAll?, run?_outer]
  have hempty : (([] : Table).map Prod.fst ++ sections.map Prod.fst).Nodup := hnames
  exact runAll?_sectionStatements hempty hkeys [outer]

end Builder

end Toml

end GrammarLayout
