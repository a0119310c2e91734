-- SUMMARY: The sizes and status codes that the programs share.

/-!
# Shared constants

What `rodsDef.h`, `objInfo.h` and `rodsErrorTable.h` define for the client, the server and the
catalog alike. A constant that only one part of the program uses stands with that part.
-/

/-! ## Sizes -/

def NAME_LEN : Nat := 64

def LONG_NAME_LEN : Nat := 256

def MAX_PATH_ALLOWED : Nat := 1024

/-- A path, and a few characters more for the buffers it is put together in. -/
def MAX_NAME_LEN : Nat := MAX_PATH_ALLOWED + 64

/-- By how many elements the arrays of pointers grow. -/
def PTR_ARRAY_MALLOC_LEN : Nat := 10

/-! ## Resources -/

def INT_RESC_STATUS_UP : Int := 0

def INT_RESC_STATUS_DOWN : Int := 1

def CACHE_CL : Nat := 0

def ARCHIVAL_CL : Nat := 1

/-! ## Status codes -/

def SYS_MALLOC_ERR : Int := -16000

def USER__NULL_INPUT_ERR : Int := -316000

def CAT_NO_ROWS_FOUND : Int := -808000

def CAT_INVALID_ARGUMENT : Int := -816000

def CAT_NO_ACCESS_PERMISSION : Int := -818000
