import OcgeoFdw.Foundation.CIntegers
import OcgeoFdw.Foundation.CStrings
import OcgeoFdw.Options.TableOptions
import Mathlib.Data.Finset.Basic

/-! # Expression nodes and catalog lookups

The part of PostgreSQL's expression trees that the planner and executor callbacks look at, the
functions they call on them, and the catalog rows these read: operators, functions and the columns
of the foreign table. -/

namespace OcgeoFdw

open CInt CString

/-! ## Values -/

/-- A `Datum`: a 64-bit word, or the non-null pointer to a text. -/
inductive Datum
  | word (bits : BitVec 64)
  | text (value : CString)
  deriving DecidableEq

/-- `Int16GetDatum`, `Int32GetDatum` and `Int64GetDatum`: the value, sign-extended. -/
def intGetDatum (value : ℤ) : Datum := .word (BitVec.ofInt 64 value)

/-- The test `value == 0`. -/
def Datum.isZero : Datum → Bool
  | .word bits => bits = 0
  | .text _ => false

/-- `DatumGetInt32` of a word: its low 32 bits. A pointer is no `int32`. -/
def datumGetInt32 : Datum → Option ℤ
  | .word bits => some (toInt32 bits.toInt)
  | .text _ => none

/-- `TextDatumGetCString` of a pointer to a text. A word is no such pointer. -/
def textDatumGetCString : Datum → Option CString
  | .word _ => none
  | .text value => some value

/-! ## Expressions -/

/-- `Var`. -/
structure Var where
  varno : ℕ
  varattno : ℤ
  vartype : Oid
  deriving DecidableEq

/-- `Const`. -/
structure Const where
  consttype : Oid
  constvalue : Datum
  constisnull : Bool
  deriving DecidableEq

/-- `Param`. -/
structure Param where
  paramid : ℕ
  paramtype : Oid
  deriving DecidableEq

/-- The fields of an `OpExpr` but for its arguments. -/
structure OpFields where
  opno : Oid
  opresulttype : Oid
  opretset : Bool
  opcollid : Oid
  inputcollid : Oid
  deriving DecidableEq

/-- An expression node. -/
inductive Expr
  | var (v : Var)
  | const (c : Const)
  | param (p : Param)
  | funcExpr (funcid : Oid) (args : List Expr)
  | opExpr (fields : OpFields) (args : List Expr)
  | relabelType (arg : Expr) (resulttype : Oid)
  | arrayCoerceExpr (arg elemexpr : Expr)
  /-- Any other node, which may be volatile by itself, with its arguments. -/
  | other (volatile : Bool) (args : List Expr)

/-- `OpExpr`. -/
structure OpExpr extends OpFields where
  args : List Expr

/-- The tag of a node is `T_Const` or `T_Param`. -/
def Expr.isConstOrParam : Expr → Bool
  | .const _ | .param _ => true
  | _ => false

/-! ## The catalog -/

/-- A row of `pg_operator`, with the volatility of its function. -/
structure Operator where
  oprname : CString
  oprcom : Oid
  volatile : Bool

/-- The catalog rows looked up: operators, and whether a function is volatile. -/
structure Catalog where
  operator : Oid → Option Operator
  volatileFunction : Oid → Bool

/-- `get_opname`. -/
def getOpname (catalog : Catalog) (opno : Oid) : Option CString :=
  (catalog.operator opno).map Operator.oprname

/-- The names of the system columns, from attribute number -1 downwards. -/
def systemAttnames : List CString :=
  [ofAscii "ctid", ofAscii "xmin", ofAscii "cmin", ofAscii "xmax", ofAscii "cmax",
    ofAscii "tableoid"]

/-- `get_attname` with `missing_ok` false, on a table with the given columns: it raises an error for
an attribute number that the table does not have. -/
def getAttname (columns : List CString) (attnum : ℤ) : Option CString :=
  if 0 < attnum then columns[(attnum - 1).toNat]?
  else if attnum < 0 then systemAttnames[(-attnum - 1).toNat]?
  else none

/-! ## Functions on expressions -/

/-- `Relids`. -/
abbrev Relids := Finset ℕ

mutual

/-- `pull_varnos`. -/
def pullVarnos : Expr → Relids
  | .var v => {v.varno}
  | .const _ | .param _ => ∅
  | .funcExpr _ args | .opExpr _ args | .other _ args => pullVarnosList args
  | .relabelType arg _ => pullVarnos arg
  | .arrayCoerceExpr arg elemexpr => pullVarnos arg ∪ pullVarnos elemexpr

/-- The walk of `pull_varnos` over a list. -/
def pullVarnosList : List Expr → Relids
  | [] => ∅
  | e :: es => pullVarnos e ∪ pullVarnosList es

end

mutual

/-- `contain_volatile_functions`. -/
def containVolatileFunctions (catalog : Catalog) : Expr → Bool
  | .var _ | .const _ | .param _ => false
  | .funcExpr funcid args =>
      catalog.volatileFunction funcid || containVolatileFunctionsList catalog args
  | .opExpr fields args =>
      (catalog.operator fields.opno).any Operator.volatile ||
        containVolatileFunctionsList catalog args
  | .relabelType arg _ => containVolatileFunctions catalog arg
  | .arrayCoerceExpr arg elemexpr =>
      containVolatileFunctions catalog arg || containVolatileFunctions catalog elemexpr
  | .other volatile args => volatile || containVolatileFunctionsList catalog args

/-- The walk of `contain_volatile_functions` over a list. -/
def containVolatileFunctionsList (catalog : Catalog) : List Expr → Bool
  | [] => false
  | e :: es => containVolatileFunctions catalog e || containVolatileFunctionsList catalog es

end

/-- A constant or a parameter mentions no relation. -/
theorem pullVarnos_of_isConstOrParam {e : Expr} (h : e.isConstOrParam = true) :
    pullVarnos e = ∅ := by
  cases e with
  | const c => rfl
  | param p => rfl
  | _ => simp [Expr.isConstOrParam] at h

/-- A constant or a parameter calls no function. -/
theorem containVolatileFunctions_of_isConstOrParam (catalog : Catalog) {e : Expr}
    (h : e.isConstOrParam = true) : containVolatileFunctions catalog e = false := by
  cases e with
  | const c => rfl
  | param p => rfl
  | _ => simp [Expr.isConstOrParam] at h

end OcgeoFdw
