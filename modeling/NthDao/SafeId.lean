/-
  File names of ids (`nth_dao/util/io.py`): `safe_id`.

  Different ids can have one name.
-/
import NthDao.Identity

namespace NthDao

open Py

variable (H : Host)

/-- `value.strip("-")`. -/
def stripDashes (cs : List Char) : List Char :=
  ((cs.dropWhile (· == '-')).reverse.dropWhile (· == '-')).reverse

/-- `safe_id`. -/
def safeId (value : String) : String :=
  if value == "" then "anon"
  else
    let safe := stripDashes ((chars value).map fun c =>
      if H.isalnum c || (chars "_-.").contains c then c else '-')
    if safe == [] then "anon"
    else if safe == ['.'] || safe == ['.', '.'] || safe.contains '/' || safe.contains '\\' then "anon"
    else String.ofList (safe.take 200)

end NthDao
