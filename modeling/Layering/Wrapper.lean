import Layering.Path

/-!
# The build wrapper

The files that let a project be built without an installed build tool, and what is in them.
-/

namespace Layering.Wrapper

/-- The directory of the wrapper, seen from the module. -/
def directory : Text := ".mvn/wrapper"

/-- The script that runs the wrapper. -/
def script : Text := "mvnw"

/-- The script for the other family of systems. -/
def batchScript : Text := "mvnw.cmd"

/-- What the wrapper is to fetch. -/
def properties : Text := ".mvn/wrapper/maven-wrapper.properties"

/-- The files of the wrapper. -/
def files : List Text := [script, batchScript, properties]

/-- The files of the wrapper that can be run. -/
def executables : List Text := [script]

/-- Lines with a line feed after each. -/
def unlines (lines : List String) : Text := lines.flatMap fun line => line.toList ++ ['\n']

/-- The lines of the script. -/
def scriptLines : List String :=
  ["#!/bin/sh",
   "# ----------------------------------------------------------------------------",
   "# Maven wrapper (only-script). Downloads the distribution named in",
   "# .mvn/wrapper/maven-wrapper.properties into ~/.m2/wrapper and runs it.",
   "# ----------------------------------------------------------------------------",
   "set -euf",
   "",
   "die() \x7b",
   "  printf 'mvnw: %s\\n' \"$*\" >&2",
   "  exit 1",
   "\x7d",
   "",
   "basedir=$(cd \"$(dirname \"$0\")\" && pwd)",
   "properties=\"$basedir/.mvn/wrapper/maven-wrapper.properties\"",
   "[ -f \"$properties\" ] || die \"cannot read $properties\"",
   "",
   "distribution_url=",
   "while IFS='=' read -r key value || [ -n \"$key\" ]; do",
   "  case \"$key\" in",
   "    distributionUrl) distribution_url=$(printf '%s' \"$value\" | tr -d '\\r') ;;",
   "  esac",
   "done <\"$properties\"",
   "[ -n \"$distribution_url\" ] || die \"distributionUrl is not set in $properties\"",
   "",
   "distribution_name=$\x7bdistribution_url##*/\x7d",
   "distribution_name=$\x7bdistribution_name%-bin.zip\x7d",
   "maven_user_home=$\x7bMAVEN_USER_HOME:-$HOME/.m2\x7d",
   "maven_home=\"$maven_user_home/wrapper/dists/$distribution_name\"",
   "",
   "if [ ! -x \"$maven_home/bin/mvn\" ]; then",
   "  tmp_dir=$(mktemp -d) || die \"cannot create temp dir\"",
   "  trap 'rm -rf \"$tmp_dir\"' EXIT",
   "  archive=\"$tmp_dir/$distribution_name.zip\"",
   "  if command -v curl >/dev/null; then",
   "    curl -fsSL -o \"$archive\" \"$distribution_url\" || die \"failed to fetch $distribution_url\"",
   "  elif command -v wget >/dev/null; then",
   "    wget -q -O \"$archive\" \"$distribution_url\" || die \"failed to fetch $distribution_url\"",
   "  else",
   "    die \"curl or wget is required to download Maven\"",
   "  fi",
   "  command -v unzip >/dev/null || die \"unzip is required to install Maven\"",
   "  unzip -q \"$archive\" -d \"$tmp_dir\" || die \"failed to unpack $archive\"",
   "  mkdir -p \"$\x7bmaven_home%/*\x7d\"",
   "  rm -rf \"$maven_home\"",
   "  mv \"$tmp_dir/$distribution_name\" \"$maven_home\" || die \"failed to install $maven_home\"",
   "fi",
   "",
   "MAVEN_PROJECTBASEDIR=$\x7bMAVEN_BASEDIR:-$basedir\x7d",
   "export MAVEN_PROJECTBASEDIR",
   "exec \"$maven_home/bin/mvn\" \"$@\""]

/-- The lines of the script for the other family of systems. -/
def batchScriptLines : List String :=
  ["@REM ----------------------------------------------------------------------------",
   "@REM Maven wrapper (only-script). Downloads the distribution named in",
   "@REM .mvn\\wrapper\\maven-wrapper.properties into %USERPROFILE%\\.m2\\wrapper and runs it.",
   "@REM ----------------------------------------------------------------------------",
   "@echo off",
   "setlocal",
   "",
   "set \"BASEDIR=%~dp0\"",
   "set \"PROPERTIES=%BASEDIR%.mvn\\wrapper\\maven-wrapper.properties\"",
   "if not exist \"%PROPERTIES%\" (",
   "  echo mvnw: cannot read %PROPERTIES% 1>&2",
   "  exit /b 1",
   ")",
   "",
   "for /f \"usebackq tokens=1,* delims==\" %%A in (\"%PROPERTIES%\") do (",
   "  if \"%%A\"==\"distributionUrl\" set \"DISTRIBUTION_URL=%%B\"",
   ")",
   "if \"%DISTRIBUTION_URL%\"==\"\" (",
   "  echo mvnw: distributionUrl is not set in %PROPERTIES% 1>&2",
   "  exit /b 1",
   ")",
   "",
   "for %%F in (\"%DISTRIBUTION_URL%\") do set \"DISTRIBUTION_NAME=%%~nF\"",
   "set \"DISTRIBUTION_NAME=%DISTRIBUTION_NAME:-bin=%\"",
   "if \"%MAVEN_USER_HOME%\"==\"\" set \"MAVEN_USER_HOME=%USERPROFILE%\\.m2\"",
   "set \"MAVEN_HOME=%MAVEN_USER_HOME%\\wrapper\\dists\\%DISTRIBUTION_NAME%\"",
   "",
   "if not exist \"%MAVEN_HOME%\\bin\\mvn.cmd\" (",
   "  powershell -NoProfile -ExecutionPolicy Bypass -Command ^",
   "    \"$ErrorActionPreference = 'Stop';\" ^",
   "    \"$tmp = New-Item -ItemType Directory -Path ([IO.Path]::Combine([IO.Path]::GetTempPath(), [Guid]::NewGuid()));\" ^",
   "    \"$zip = Join-Path $tmp 'maven.zip';\" ^",
   "    \"Invoke-WebRequest -UseBasicParsing -Uri $env:DISTRIBUTION_URL -OutFile $zip;\" ^",
   "    \"Expand-Archive -Path $zip -DestinationPath $tmp;\" ^",
   "    \"New-Item -ItemType Directory -Force -Path (Split-Path $env:MAVEN_HOME) | Out-Null;\" ^",
   "    \"Move-Item -Path (Join-Path $tmp $env:DISTRIBUTION_NAME) -Destination $env:MAVEN_HOME;\" ^",
   "    \"Remove-Item -Recurse -Force $tmp\"",
   "  if errorlevel 1 (",
   "    echo mvnw: failed to install Maven from %DISTRIBUTION_URL% 1>&2",
   "    exit /b 1",
   "  )",
   ")",
   "",
   "if \"%MAVEN_BASEDIR%\"==\"\" (set \"MAVEN_PROJECTBASEDIR=%BASEDIR%\") else (set \"MAVEN_PROJECTBASEDIR=%MAVEN_BASEDIR%\")",
   "\"%MAVEN_HOME%\\bin\\mvn.cmd\" %*",
   "exit /b %ERRORLEVEL%"]

/-- The lines of the properties. -/
def propertiesLines : List String :=
  ["wrapperVersion=3.3.2",
   "distributionType=only-script",
   "distributionUrl=https://repo.maven.apache.org/maven2/org/apache/maven/apache-maven/3.9.9/apache-maven-3.9.9-bin.zip"]

/-- What is in a file of the wrapper. -/
def contents (file : Text) : Text :=
  unlines (if file = script then scriptLines
    else if file = batchScript then batchScriptLines else propertiesLines)

end Layering.Wrapper
