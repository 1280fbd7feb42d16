import EasyIpc.Registry
import EasyIpc.Lib.Printf

/-!
# Listing the members

`ipcd_misc_ls_all` and `ipcd_misc_ls_pname` of `easyipc_misc.c`: a section for a member, with a row
for each of its APIs and a row for each of its messages.

* `rows`, `ipcdMiscLsAll`, `ipcdMiscLsPname` — the loop over a list and the two listings.
* `listings_agree` — `ipcd_misc_ls_pname` goes over the messages as often as there are APIs.
-/

namespace EasyIpc

open Printf

/-- A line of the listings for an API or a message. -/
def row (lib : Library) (p : MMember) : CStr :=
  vsprintf lib (bytes "%-32s%-12d%4ld.%03ld\r\n") [.str p.msgName, .int p.processCnt,
    .int p.processTime.tvSec, .int (p.processTime.tvNsec.tdiv 1000000)]

/-- `for(j=0;j<size;j++)` over a list; where it has no entry `j`, nothing is printed. -/
def rows (lib : Library) (size : ℕ) (l : List MMember) : List CStr :=
  (List.range size).filterMap fun j => (l[j]?).map (row lib)

/-- What is printed for a member. -/
structure MemberSection where
  head : CStr
  apiRows : List CStr
  msgRows : List CStr
  deriving DecidableEq, Repr

/-- The line below the names of the columns. -/
def rule : CStr := List.replicate 86 45 ++ bytes "\r\n"

/-- The names of the columns, and the line below. -/
def columns (lib : Library) (name count : CStr) : CStr :=
  vsprintf lib (bytes "%-32s%-12s%-12s\r\n") [.str name, .str count, .str (bytes "used time")] ++ rule

/-- What stands above the rows of the APIs. -/
def sectionHead (lib : Library) (title : CStr) (tmlm : MlistMember) : CStr :=
  bytes "\r\n\r\n" ++ title ++
    vsprintf lib (bytes "progress name: %s\r\n") [.str tmlm.pname] ++
    vsprintf lib (bytes "progress id: %d\r\n") [.int tmlm.pid] ++
    vsprintf lib (bytes "progress send count: %d\r\n") [.int tmlm.sendCnt] ++
    vsprintf lib (bytes "progress recv count: %d\r\n") [.int tmlm.recvCnt] ++
    bytes "\r\n" ++ columns lib (bytes "api name") (bytes "call count")

/-- The body of the loop of `ipcd_misc_ls_all`: `api_list_size` is set anew for the messages. -/
def lsAllSection (lib : Library) (tmlm : MlistMember) : MemberSection where
  head := sectionHead lib
    (bytes "===================================\tprogress state\t==================================\r\n")
    tmlm
  apiRows := rows lib tmlm.apiList.length tmlm.apiList
  msgRows := rows lib tmlm.pmsgList.length tmlm.pmsgList

/-- `ipcd_misc_ls_all`, section by section. -/
def ipcdMiscLsAll (lib : Library) (mlist : List MlistMember) : List MemberSection :=
  mlist.map (lsAllSection lib)

/-- The section that `ipcd_misc_ls_pname` prints of the member it finds: `api_list_size` is the
number of APIs in both loops. -/
def lsPnameSection (lib : Library) (tmlm : MlistMember) : MemberSection where
  head := sectionHead lib
    (bytes "==============================  progress state  ======================================\r\n")
    tmlm
  apiRows := rows lib tmlm.apiList.length tmlm.apiList
  msgRows := rows lib tmlm.apiList.length tmlm.pmsgList

/-- `ipcd_misc_ls_pname`: the first member of the name, if there is one. -/
def ipcdMiscLsPname (lib : Library) (mlist : List MlistMember) (pname : CStr) :
    Option MemberSection :=
  (mlist.find? fun tmlm => tmlm.pname == pname).map (lsPnameSection lib)

variable {lib : Library} {mlist : List MlistMember} {m : MlistMember} {i : ℕ}

/-- The rows are those of the entries the loop gets to. -/
theorem rows_eq (size : ℕ) (l : List MMember) : rows lib size l = (l.take size).map (row lib) := by
  unfold rows
  induction size with
  | zero => rfl
  | succ size ih =>
    rw [List.range_succ, List.filterMap_append, ih, List.take_add_one, List.map_append]
    cases hget : l[size]? <;> simp [hget]

theorem rows_length (l : List MMember) : rows lib l.length l = l.map (row lib) := by
  rw [rows_eq, List.take_length]

/-- With distinct names the member of a name is found. -/
theorem find?_pname (hnames : (mlist.map MlistMember.pname).Nodup) (hm : m ∈ mlist) :
    (mlist.find? fun tmlm => tmlm.pname == m.pname) = some m := by
  induction mlist with
  | nil => simp at hm
  | cons first mlist ih =>
    rw [List.map_cons, List.nodup_cons] at hnames
    rw [List.find?_cons]
    rcases List.mem_cons.1 hm with rfl | hm
    · simp
    · have hne : first.pname ≠ m.pname := by
        intro heq
        exact hnames.1 (heq ▸ List.mem_map_of_mem hm)
      rw [beq_eq_false_iff_ne.2 hne]
      exact ih hnames.2 hm

/-- The two listings give the member the same rows, one for each of its APIs and one for each of its
messages. -/
def ListingsAgree (lib : Library) (mlist : List MlistMember) (i : ℕ) (m : MlistMember) : Prop :=
  ∃ all named, (ipcdMiscLsAll lib mlist)[i]? = some all ∧
    ipcdMiscLsPname lib mlist m.pname = some named ∧
    named.apiRows = all.apiRows ∧ named.msgRows = all.msgRows ∧
    all.apiRows = m.apiList.map (row lib) ∧ all.msgRows = m.pmsgList.map (row lib)

/-- **When the two listings agree about a member.**  The member is the one at the place `i` of a
registry with distinct names. -/
theorem listings_agree (hnames : (mlist.map MlistMember.pname).Nodup) (hm : mlist[i]? = some m) :
    ListingsAgree lib mlist i m ↔ m.pmsgList.length ≤ m.apiList.length := by
  have hall : (ipcdMiscLsAll lib mlist)[i]? = some (lsAllSection lib m) := by
    rw [ipcdMiscLsAll, List.getElem?_map, hm, Option.map_some]
  have hnamed : ipcdMiscLsPname lib mlist m.pname = some (lsPnameSection lib m) := by
    rw [ipcdMiscLsPname, find?_pname hnames (List.mem_of_getElem? hm), Option.map_some]
  refine ⟨?short, ?same⟩
  case short =>
    rintro ⟨all, named, hall', hnamed', -, hmsg, -, -⟩
    obtain rfl := Option.some.inj (hall.symm.trans hall')
    obtain rfl := Option.some.inj (hnamed.symm.trans hnamed')
    have hlen := congrArg List.length hmsg
    simp only [lsPnameSection, lsAllSection, rows_eq, List.length_map, List.length_take] at hlen
    omega
  case same =>
    intro hle
    refine ⟨_, _, hall, hnamed, rfl, ?_, rows_length _, rows_length _⟩
    simp only [lsPnameSection, lsAllSection, rows_eq]
    rw [List.take_of_length_le hle, List.take_length]

/-- A member with an API and a message or two. -/
def listedMember (msgs : List MMember) : MlistMember :=
  ⟨7, 0, 1, 2, bytes "app", 0, 0, false, msgs, [⟨bytes "f", 3, ⟨1, 5000000⟩⟩], 0, [], [], []⟩

/-- One of each. -/
theorem listings_agree_one :
    ListingsAgree silent [listedMember [⟨bytes "m", 2, ⟨0, 0⟩⟩]] 0
        (listedMember [⟨bytes "m", 2, ⟨0, 0⟩⟩]) ↔
      (listedMember [⟨bytes "m", 2, ⟨0, 0⟩⟩]).pmsgList.length ≤
        (listedMember [⟨bytes "m", 2, ⟨0, 0⟩⟩]).apiList.length :=
  listings_agree (by decide) rfl

/-- Of two messages next to one API the second is not listed. -/
theorem listing_cut :
    ipcdMiscLsPname silent [listedMember [⟨bytes "m", 2, ⟨0, 0⟩⟩, ⟨bytes "n", 4, ⟨0, 0⟩⟩]]
        (bytes "app") =
      some ⟨sectionHead silent
          (bytes "==============================  progress state  ======================================\r\n")
          (listedMember []),
        [row silent ⟨bytes "f", 3, ⟨1, 5000000⟩⟩], [row silent ⟨bytes "m", 2, ⟨0, 0⟩⟩]⟩ ∧
    ¬ ListingsAgree silent [listedMember [⟨bytes "m", 2, ⟨0, 0⟩⟩, ⟨bytes "n", 4, ⟨0, 0⟩⟩]] 0
        (listedMember [⟨bytes "m", 2, ⟨0, 0⟩⟩, ⟨bytes "n", 4, ⟨0, 0⟩⟩]) := by
  refine ⟨rfl, ?_⟩
  rintro ⟨all, named, hall, hnamed, -, hmsg, -⟩
  obtain rfl := Option.some.inj hall
  obtain rfl := Option.some.inj hnamed
  exact absurd (congrArg List.length hmsg) (by decide)

end EasyIpc
